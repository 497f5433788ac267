/-
The networks that a node may be attached to.
-/
namespace PoolKeeper

inductive Network where
  | mainnet
  | prater
  | holesky
  | devnet
  deriving DecidableEq

namespace Network

def all : List Network := [mainnet, prater, holesky, devnet]

def name : Network → String
  | mainnet => "mainnet"
  | prater => "prater"
  | holesky => "holesky"
  | devnet => "devnet"

def ofName? (s : String) : Option Network := all.find? fun n => n.name == s

theorem ofName?_name (n : Network) : ofName? n.name = some n := by cases n <;> decide

end Network
end PoolKeeper

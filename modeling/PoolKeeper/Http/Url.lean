/-
URLs: reading them as browsers do, writing them in their one normal form, and
finding a resource below another.
-/
import PoolKeeper.Http.Host

namespace PoolKeeper

/-- Where a resource is looked for. -/
structure Authority where
  username : String
  password : String
  host : String
  /-- The number that the server is found under, unless the scheme implies it. -/
  service : Option Nat
  deriving DecidableEq

/-- The part of a URL that names a resource. -/
inductive UrlPath where
  | segments (ss : List String)
  /-- A path that no other can be found below. -/
  | plain (s : String)
  deriving DecidableEq

structure Url where
  scheme : String
  authority : Option Authority
  path : UrlPath
  query : Option String
  fragment : Option String
  deriving DecidableEq

namespace Url

inductive Fault where
  | host (f : Host.Fault)
  | service
  | relative
  /-- Nothing can be found below the other URL. -/
  | noBase
  deriving DecidableEq

def Fault.message : Fault → String
  | .host .empty => "empty host"
  | .host .international => "invalid international domain name"
  | .host .ipv4 => "invalid IPv4 address"
  | .host .ipv6 => "invalid IPv6 address"
  | .host .forbidden => "invalid domain character"
  | .service => "invalid port number"
  | .relative => "relative URL without a base"
  | .noBase => "relative URL with a cannot-be-a-base base"

/-! ## Schemes -/

/-- The number that a server is found under if its URL names none. -/
def impliedService? (scheme : String) : Option Nat :=
  match scheme with
  | "http" | "ws" => some 80
  | "https" | "wss" => some 443
  | "ftp" => some 21
  | _ => none

/-- A scheme that everybody knows. Behind it a backslash is a slash. -/
def isSpecial (scheme : String) : Bool := (impliedService? scheme).isSome || scheme == "file"

def isSchemeChar (c : Char) : Bool := c.isAlphanum || c = '+' || c = '-' || c = '.'

/-- The scheme in lower case, and what stands behind its colon. -/
def scheme? (cs : List Char) : Option (String × List Char) :=
  let name := cs.takeWhile isSchemeChar
  match name, cs.drop name.length with
  | c :: _, ':' :: rest =>
    if c.isAlpha then some (String.ofList (name.map Char.toLower), rest) else none
  | _, _ => none

/-! ## Paths -/

def isSlash (special : Bool) (c : Char) : Bool := c = '/' || (special && c = '\\')

/-- The texts between slashes, at least one. -/
def splitSlashes (special : Bool) : List Char → List (List Char)
  | [] => [[]]
  | c :: cs =>
    if isSlash special c then [] :: splitSlashes special cs
    else match splitSlashes special cs with
      | [] => [[c]]
      | s :: ss => (c :: s) :: ss

/-- A segment in which every `%2e` is a point. -/
def unescapePoints : List Char → List Char
  | '%' :: '2' :: e :: cs =>
    if e = 'e' ∨ e = 'E' then '.' :: unescapePoints cs else '%' :: '2' :: e :: unescapePoints cs
  | c :: cs => c :: unescapePoints cs
  | [] => []

/-- The segment stands for the one that it is in. -/
def isHere (segment : List Char) : Bool := unescapePoints segment == ['.']

/-- The segment stands for the one above. -/
def isAbove (segment : List Char) : Bool := unescapePoints segment == ['.', '.']

/-- Goes down a path, segment by segment. The last one stays, be it empty. -/
def descend (above : List String) : List (List Char) → List String
  | [] => above
  | [s] =>
    if isAbove s then above.dropLast ++ [""]
    else if isHere s then above ++ [""]
    else above ++ [String.ofList (Percent.encode Percent.path s)]
  | s :: ss =>
    if isAbove s then descend above.dropLast ss
    else if isHere s then descend above ss
    else descend (above ++ [String.ofList (Percent.encode Percent.path s)]) ss

/-- The text in front of the first character that ends it, and the rest. -/
def upTo (ends : Char → Bool) (cs : List Char) : List Char × List Char := cs.span fun c => !ends c

/-! ## Query and fragment -/

/-- What may follow a path: a query, and a fragment. -/
def queryAndFragment (special : Bool) (cs : List Char) : Option String × Option String :=
  let (before, behind) := upTo (· = '#') cs
  let fragment := match behind with
    | [] => none
    | _ :: f => some (String.ofList (Percent.encode Percent.fragment f))
  let query := match before with
    | [] => none
    | _ :: q =>
      let set := if special then Percent.specialQuery else Percent.query
      some (String.ofList (Percent.encode set q))
  (query, fragment)

/-! ## Authorities -/

/-- The text behind the last `@`, and the text in front of it if there is one. -/
def splitUser (cs : List Char) : Option (List Char) × List Char :=
  let host := (cs.reverse.takeWhile (· ≠ '@')).reverse
  if host.length = cs.length then (none, cs)
  else (some (cs.take (cs.length - host.length - 1)), host)

/-- The host, and what stands behind the colon that follows it. Inside brackets
a colon is part of the host. -/
def splitService (inBrackets : Bool) : List Char → List Char × Option (List Char)
  | [] => ([], none)
  | c :: cs =>
    if c = ':' ∧ !inBrackets then ([], some cs)
    else
      let inBrackets := if c = '[' then true else if c = ']' then false else inBrackets
      let (host, service) := splitService inBrackets cs
      (c :: host, service)

def service? (scheme : String) : Option (List Char) → Except Fault (Option Nat)
  | none => return none
  | some [] => return none
  | some cs =>
    match Numeral.readDigits 10 cs with
    | none => throw .service
    | some n =>
      if 2 ^ 16 ≤ n then throw .service
      else if impliedService? scheme = some n then return none
      else return some n

/-- Reads what stands between the slashes in front of a host and the path. -/
def authorityOf (scheme : String) (cs : List Char) : Except Fault Authority := do
  let (user, rest) := splitUser cs
  let (name, password) := splitService false (user.getD [])
  let (host, service) := splitService false rest
  if host.isEmpty ∧ (isSpecial scheme ∨ user.isSome ∨ service.isSome) then throw (.host .empty)
  let host ← ((if isSpecial scheme then Host.ofChars host else Host.plain host) :
    Except Host.Fault String).mapError .host
  let encoded (cs : List Char) := String.ofList (Percent.encode Percent.userinfo cs)
  return ⟨encoded name, encoded (password.getD []), host, ← service? scheme service⟩

/-- Reads what follows the slashes in front of a host. -/
def withAuthority (scheme : String) (cs : List Char) : Except Fault Url := do
  let special := isSpecial scheme
  let (place, rest) := upTo (fun c => isSlash special c || c = '?' || c = '#') cs
  let authority ← authorityOf scheme place
  let (path, rest) := upTo (fun c => c = '?' || c = '#') rest
  let (query, fragment) := queryAndFragment special rest
  let segments := match path with
    | [] => if special then [""] else []
    | _ :: path => descend [] (splitSlashes special path)
  return ⟨scheme, some authority, .segments segments, query, fragment⟩

/-- Reads what follows `file:`. A machine may be named, but this one need not be. -/
def ofFile (cs : List Char) : Except Fault Url := do
  let (slashes, rest) := cs.span (isSlash true)
  let (host, rest) :=
    if slashes.length = 2 then upTo (fun c => isSlash true c || c = '?' || c = '#') rest
    else ([], rest)
  let host ← if host.isEmpty then pure "" else (Host.ofChars host).mapError .host
  let (path, rest) := upTo (fun c => c = '?' || c = '#') rest
  let (query, fragment) := queryAndFragment true rest
  let path := if slashes.length = 2 then path.drop 1 else path
  let above := List.replicate (slashes.length - 3) ""
  return ⟨"file", some ⟨"", "", if host = "localhost" then "" else host, none⟩,
    .segments (descend above (splitSlashes true path)), query, fragment⟩

/-- Reads what follows any other scheme without the slashes in front of a host. -/
def withoutAuthority (scheme : String) (cs : List Char) : Url :=
  let (path, rest) := upTo (fun c => c = '?' || c = '#') cs
  let (query, fragment) := queryAndFragment false rest
  let path := match path with
    | '/' :: path => .segments (descend [] (splitSlashes false path))
    | path => .plain (String.ofList (Percent.encode Percent.plain path))
  ⟨scheme, none, path, query, fragment⟩

/-! ## Reading and writing -/

/-- The characters that count: no blanks or control characters at either end,
no tabs and line breaks anywhere. -/
def meant (s : String) : List Char :=
  let trim (cs : List Char) := cs.dropWhile (· ≤ ' ')
  ((trim (trim s.toList).reverse).reverse).filter fun c => c ≠ '\t' && c ≠ '\n' && c ≠ '\r'

def parse (s : String) : Except Fault Url :=
  match scheme? (meant s) with
  | none => .error .relative
  | some (scheme, rest) =>
    if scheme = "file" then ofFile rest
    else if isSpecial scheme then withAuthority scheme (rest.dropWhile (isSlash true))
    else match rest with
      | '/' :: '/' :: rest => withAuthority scheme rest
      | rest => .ok (withoutAuthority scheme rest)

def Authority.text (a : Authority) : String :=
  let user :=
    if a.username.isEmpty ∧ a.password.isEmpty then ""
    else if a.password.isEmpty then a.username ++ "@"
    else a.username ++ ":" ++ a.password ++ "@"
  user ++ a.host ++ (a.service.elim "" fun p => ":" ++ Numeral.decimal p)

/-- The normal form of the URL. -/
def text (u : Url) : String :=
  u.scheme ++ ":" ++ (u.authority.elim "" fun a => "//" ++ Authority.text a) ++
    (match u.path with
      | .plain s => s
      | .segments ss => String.join (ss.map fun s => "/" ++ s)) ++
    (u.query.elim "" fun q => "?" ++ q) ++ (u.fragment.elim "" fun f => "#" ++ f)

/-- The resource that a path leads to, and a query that may follow it, from
where the URL is. The last segment of the URL is left first. -/
def join (base : Url) (path : String) : Except Fault Url :=
  match base.path with
  | .plain _ => .error .noBase
  | .segments ss =>
    let special := isSpecial base.scheme
    let (path, rest) := upTo (fun c => c = '?' || c = '#') path.toList
    let (query, fragment) := queryAndFragment special rest
    .ok { base with
      path := .segments (descend ss.dropLast (splitSlashes special path)), query, fragment }

end Url
end PoolKeeper

/-
Requests and responses as they go over a connection, which is used once: the
server closes it when it has answered.
-/
import PoolKeeper.Http.Basic
import PoolKeeper.Text

namespace PoolKeeper.HttpMessage

/-! ## Requests -/

/-- The end of a line. -/
def lineEnd : String := "\r\n"

/-- Where on a server the resource is. -/
def target (url : Url) : String :=
  (match url.path with
    | .plain s => s
    | .segments ss => String.join (ss.map fun s => "/" ++ s)) ++
    (url.query.elim "" fun q => "?" ++ q)

/-- The host as it is named to the server. -/
def hostName (url : Url) : String :=
  url.authority.elim "" fun a => a.host ++ (a.service.elim "" fun p => ":" ++ Numeral.decimal p)

def head (method : String) (url : Url) (fields : List (String × String)) : Bytes :=
  let lines := [("host", hostName url), ("accept", "*/*"), ("connection", "close")] ++ fields
  Bytes.ofText (method ++ " " ++ target url ++ " HTTP/1.1" ++ lineEnd ++
    String.join (lines.map fun (k, v) => k ++ ": " ++ v ++ lineEnd) ++ lineEnd)

def ofCall : Http.Call → Bytes
  | .get url => head "GET" url []
  | .post url body =>
    head "POST" url [("content-type", "application/json"),
      ("content-length", Numeral.decimal body.length)] ++ body

/-! ## Responses -/

/-- The characters of a line, and what follows its end. -/
def firstLine : Bytes → Option (List Char × Bytes)
  | [] => none
  | 0x0d :: 0x0a :: bs => some ([], bs)
  | b :: bs => (firstLine bs).map fun (l, rest) => (Char.ofNat b.toNat :: l, rest)

theorem length_firstLine {bs : Bytes} {l : List Char} {rest : Bytes}
    (h : firstLine bs = some (l, rest)) : rest.length < bs.length := by
  fun_induction firstLine bs generalizing l rest with
  | case1 => simp at h
  | case2 bs =>
    simp only [Option.some.injEq, Prod.mk.injEq] at h
    simp only [← h.2, List.length_cons]
    omega
  | case3 b bs _ ih =>
    obtain ⟨⟨l', rest'⟩, h', e⟩ := Option.map_eq_some_iff.1 h
    simp only [Prod.mk.injEq] at e
    have := ih h'
    simp only [← e.2, List.length_cons]
    omega

/-- The fields of a head, their names in lower case, and what follows it. -/
def fields (bs : Bytes) : Option (List (String × List Char) × Bytes) :=
  match _h : firstLine bs with
  | none => none
  | some ([], rest) => some ([], rest)
  | some (l, rest) =>
    (fields rest).map fun (fs, body) =>
      let (name, value) := l.span (· ≠ ':')
      ((String.ofList (name.map Char.toLower), Text.trimmed (value.drop 1)) :: fs, body)
termination_by bs.length
decreasing_by exact length_firstLine _h

/-- The status in the first line of a response. -/
def status? (line : List Char) : Option Nat :=
  match Text.splitOn ' ' line with
  | _ :: code :: _ => Numeral.readDigits 10 code
  | _ => none

/-- The bytes of pieces that each have their length in front, if all of them
are there. -/
def unchunked (bs : Bytes) : Option Bytes :=
  match _h : firstLine bs with
  | none => none
  | some (l, rest) =>
    match Numeral.readDigits 16 (l.takeWhile Char.isAlphanum) with
    | none => none
    | some 0 => some []
    | some n =>
      if rest.length < n + 2 then none
      else (unchunked (rest.drop (n + 2))).map (rest.take n ++ ·)
termination_by bs.length
decreasing_by
  have := length_firstLine _h
  simp only [List.length_drop]
  omega

/-- The body of a response, if all of it is there. -/
def body (fields : List (String × List Char)) (bs : Bytes) : Option Bytes :=
  match fields.lookup "transfer-encoding", fields.lookup "content-length" with
  | some _, _ => unchunked bs
  | none, some length =>
    (Numeral.readDigits 10 length).bind fun n => if n ≤ bs.length then some (bs.take n) else none
  | none, none => some bs

/-- The response in what a server has sent. -/
def response? (bs : Bytes) : Option HttpResponse := do
  let (line, rest) ← firstLine bs
  let status ← status? line
  let (fields, bs) ← fields rest
  return ⟨status, body fields bs⟩

end PoolKeeper.HttpMessage

import Mathlib.Data.List.AList
import Mathlib.Tactic

/-! # Response Writers

    The response writer of `net/http`, which handlers write the response of a
    client to.  A final status is committed once, together with the header map
    at that moment; `Write` and `Flush` commit status 200 when nothing has been
    committed.  Responses 1xx are sent at once and commit nothing.

    A handler is the sequence of calls it makes on its writer. -/

namespace Ingress.Http

/-! ## Header maps -/

/-- A header map: lists of values by key. -/
abbrev Header := AList fun _ : String => List String

/-- The characters of a header field name. -/
def isTokenChar (c : Char) : Bool :=
  c.isAlphanum || "!#$%&'*+-.^_`|~".toList.contains c

/-- The first letter and the letters after a hyphen in upper case, the others in
    lower case. -/
def capitalize : Bool → List Char → List Char
  | _, [] => []
  | upper, c :: cs => (if upper then c.toUpper else c.toLower) :: capitalize (c = '-') cs

/-- `textproto.CanonicalMIMEHeaderKey`: a key with other characters is left alone. -/
def canonicalMIMEHeaderKey (key : String) : String :=
  if key.toList.all isTokenChar then String.ofList (capitalize true key.toList) else key

def Header.add (h : Header) (key value : String) : Header :=
  let k := canonicalMIMEHeaderKey key
  h.insert k ((h.lookup k).getD [] ++ [value])

def Header.set (h : Header) (key value : String) : Header :=
  h.insert (canonicalMIMEHeaderKey key) [value]

def Header.del (h : Header) (key : String) : Header :=
  h.erase (canonicalMIMEHeaderKey key)

/-- Add every value of `src`, key by key. -/
def Header.addAll (h src : Header) : Header :=
  src.entries.foldl (fun h entry => entry.2.foldl (fun h v => h.add entry.1 v) h) h

/-! ## Calls -/

/-- The calls a handler makes on its writer.  `header` is any change of the map
    that `Header` returns. -/
inductive Op where
  | header (edit : Header → Header)
  | writeHeader (statusCode : Int)
  | write (b : List UInt8)
  | flush

/-- A status of a response 1xx that is not final. -/
def Informational (statusCode : Int) : Prop :=
  100 ≤ statusCode ∧ statusCode ≤ 199 ∧ statusCode ≠ 101

instance (statusCode : Int) : Decidable (Informational statusCode) :=
  inferInstanceAs (Decidable (_ ∧ _ ∧ _))

/-- The panic of `WriteHeader` on a code that has not three digits. -/
inductive Panic where
  | invalidWriteHeaderCode (statusCode : Int)
  deriving DecidableEq, Repr

/-- A writer: the map that `Header` returns, the responses 1xx sent so far, the
    status and header committed, and the body written. -/
structure Writer where
  header : Header
  informational : List (Int × Header)
  committed : Option (Int × Header)
  body : List UInt8

/-- A writer nothing was written to. -/
def fresh (header : Header) : Writer where
  header
  informational := []
  committed := none
  body := []

namespace Writer

/-- Commit status 200 unless a status is committed. -/
def commitOK (w : Writer) : Writer :=
  match w.committed with
  | some _ => w
  | none => { w with committed := some (200, w.header) }

def writeHeader (w : Writer) (statusCode : Int) : Except Panic Writer :=
  match w.committed with
  | some _ => .ok w -- superfluous call
  | none =>
    if statusCode < 100 ∨ 999 < statusCode then .error (.invalidWriteHeaderCode statusCode)
    else if Informational statusCode then
      .ok { w with informational := w.informational ++ [(statusCode, w.header)] }
    else .ok { w with committed := some (statusCode, w.header) }

/-- The statuses that allow a body. -/
def bodyAllowed (statusCode : Int) : Bool :=
  ¬ (100 ≤ statusCode ∧ statusCode ≤ 199) ∧ statusCode ≠ 204 ∧ statusCode ≠ 304

def write (w : Writer) (b : List UInt8) : Writer :=
  match w.commitOK.committed with
  | some (statusCode, _) =>
    if bodyAllowed statusCode then { w.commitOK with body := w.body ++ b } else w.commitOK
  | none => w.commitOK

def flush (w : Writer) : Writer :=
  w.commitOK

/-- One call. -/
def exec (w : Writer) : Op → Except Panic Writer
  | .header edit => .ok { w with header := edit w.header }
  | .writeHeader statusCode => w.writeHeader statusCode
  | .write b => .ok (w.write b)
  | .flush => .ok w.flush

/-- A handler. -/
def run (w : Writer) (handler : List Op) : Except Panic Writer :=
  handler.foldlM exec w

@[simp] theorem flush_flush (w : Writer) : w.flush.flush = w.flush := by
  cases h : w.committed <;> simp [flush, commitOK, h]

theorem flush_committed (w : Writer) : w.flush.committed ≠ none := by
  cases h : w.committed <;> simp [flush, commitOK, h]

end Writer

/-- `http.Error`, as a handler. -/
def httpError (error : String) (code : Int) : List Op :=
  [ .header fun h =>
      ((h.del "Content-Length").set "Content-Type" "text/plain; charset=utf-8").set
        "X-Content-Type-Options" "nosniff",
    .writeHeader code,
    .write (error ++ "\n").toUTF8.toList ]

end Ingress.Http

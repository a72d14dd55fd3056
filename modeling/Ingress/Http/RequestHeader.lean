import Ingress.Framework.Text
import Ingress.Http.ResponseWriter
import Mathlib.Data.Finmap

/-! # Request Headers

    What the middlewares that rewrite the header of a request read and write: the header map,
    the options of a `Connection` field, and the parts of an address.

    * `options`: the keys that a `Connection` field names.
    * `containsToken`: `httpguts.HeaderValuesContainsToken`.
    * `splitHostPort`: `net.SplitHostPort`. -/

open String Text

namespace Ingress.Http

/-! ## Texts -/

/-- The spaces that `textproto.TrimString` removes. -/
def isASCIISpace (c : Char) : Bool :=
  c = ' ' || c = '\t' || c = '\n' || c = '\r'

/-- The optional white space of a list of tokens. -/
def isOWS (c : Char) : Bool :=
  c = ' ' || c = '\t'

/-- A character as `strings.EqualFold` compares it with ASCII characters.  The long s and the
    sign for Kelvin are the characters beyond ASCII that fold to one of these. -/
def foldChar (c : Char) : Char :=
  if c.toNat = 0x17f then 's' else if c.toNat = 0x212a then 'k' else c.toLower

/-- `strings.EqualFold` with a text in lower case. -/
def equalFold (s : List Char) (lower : String) : Bool :=
  s.map foldChar = lower.toList

/-! ## Header maps -/

/-- The header map of a request: lists of values by key. -/
abbrev HeaderMap := Finmap fun _ : String => List String

/-- `h[key]`, which is empty for a key that is not there. -/
def HeaderMap.values (h : HeaderMap) (key : String) : List String :=
  (h.lookup key).getD []

/-- The first value at a key, or the empty text. -/
def HeaderMap.get (h : HeaderMap) (key : String) : String :=
  (h.values key).headD ""

/-- A single value at a key. -/
def HeaderMap.set (h : HeaderMap) (key value : String) : HeaderMap :=
  h.insert key [value]

/-- `Request`, with the result of `URL.RequestURI`.  `tls` says that there is a TLS state. -/
structure Request where
  method : String
  requestURI : String
  host : String
  remoteAddr : String
  tls : Bool
  header : HeaderMap

/-- The parts of the values of a `Connection` field, without spaces around them. -/
def parts (values : List String) : List (List Char) :=
  (values.flatMap fun f => (f.toList.splitOn ',').map (trim isASCIISpace)).filter (· ≠ [])

/-- The keys that the options of a `Connection` field name. -/
def options (values : List String) : List String :=
  (parts values).map fun sf => canonicalMIMEHeaderKey (ofList sf)

/-- `httpguts.HeaderValuesContainsToken`, with a token in lower case. -/
def containsToken (values : List String) (token : String) : Bool :=
  values.any fun v => (v.toList.splitOn ',').any fun s =>
    (trim isOWS s).all (·.toNat < 128) && (trim isOWS s).map Char.toLower = token.toList

/-- `net.SplitHostPort`, without the text of the error. -/
def splitHostPort (hostport : String) : Option (String × String) :=
  let cs := hostport.toList
  if ':' ∉ cs then none
  else
    -- the port starts after the last colon
    let port := (cs.reverse.takeWhile (· ≠ ':')).reverse
    let front := cs.take (cs.length - port.length - 1)
    match cs with
    | '[' :: _ =>
      -- the first ']' has to be the end of what is before the colon
      let host := (front.drop 1).takeWhile (· ≠ ']')
      if front = '[' :: host ++ [']'] && '[' ∉ host ++ port && ']' ∉ port then
        some (ofList host, ofList port)
      else none
    | _ =>
      if ':' ∈ front || '[' ∈ cs || ']' ∈ cs then none
      else some (ofList front, ofList port)

example : splitHostPort "[fe80::1%eth0]:80" = some ("fe80::1%eth0", "80") := by decide
example : splitHostPort "::1" = none := by decide

/-! ## Lookups -/

theorem lookup_foldl_erase (keys : List String) (h : HeaderMap) (key : String) :
    (keys.foldl (fun h k => h.erase k) h).lookup key = if key ∈ keys then none else h.lookup key := by
  induction keys generalizing h with
  | nil => rfl
  | cons k keys ih =>
    rw [List.foldl_cons, ih]
    by_cases hmem : key ∈ keys
    · simp [hmem]
    · by_cases hk : key = k
      · subst hk
        simp [hmem]
      · simp [hmem, hk]

theorem HeaderMap.lookup_set_ne {h : HeaderMap} {key key' : String} (hne : key ≠ key') (value : String) :
    (h.set key' value).lookup key = h.lookup key :=
  Finmap.lookup_insert_of_ne _ hne

@[simp] theorem HeaderMap.lookup_set (h : HeaderMap) (key value : String) :
    (h.set key value).lookup key = some [value] :=
  Finmap.lookup_insert _

@[simp] theorem HeaderMap.get_set (h : HeaderMap) (key value : String) :
    (h.set key value).get key = value := by
  rw [get, values, lookup_set]
  rfl

theorem HeaderMap.get_congr {h h' : HeaderMap} {key : String} (heq : h.lookup key = h'.lookup key) :
    h.get key = h'.get key := by
  rw [get, get, values, values, heq]

/-! ## Requests that differ in some headers -/

/-- The requests differ in the headers of the list only. -/
structure Request.SameBut (keys : List String) (r r' : Request) : Prop where
  method : r.method = r'.method
  requestURI : r.requestURI = r'.requestURI
  host : r.host = r'.host
  remoteAddr : r.remoteAddr = r'.remoteAddr
  tls : r.tls = r'.tls
  header : ∀ key ∉ keys, r.header.lookup key = r'.header.lookup key

/-- Requests that differ in headers which are removed do not differ after that. -/
theorem Request.SameBut.eq_of_erase {keys : List String} {r r' : Request} (h : Request.SameBut keys r r') :
    ({ r with header := keys.foldl (fun h key => h.erase key) r.header } : Request) =
      { r' with header := keys.foldl (fun h key => h.erase key) r'.header } := by
  have hhdr : keys.foldl (fun h key => h.erase key) r.header =
      keys.foldl (fun h key => h.erase key) r'.header := by
    refine Finmap.ext_lookup fun key => ?_
    rw [lookup_foldl_erase, lookup_foldl_erase]
    split
    · rfl
    · next hkey => exact h.header key hkey
  rw [hhdr, h.method, h.requestURI, h.host, h.remoteAddr, h.tls]

end Ingress.Http

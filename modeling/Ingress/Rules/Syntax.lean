import Ingress.Framework.BoolExpr
import Ingress.Framework.Transducer

/-! # The Syntax of Rules

    A rule is a Go expression, read by `predicate.Parser`: calls of matchers with
    string arguments, put together with `!`, `&&`, `||` and parentheses.

    A rule is read in three passes: `lexer` splits it into lexemes, as the scanner of
    Go does, `tokenizer` puts the calls together, and `parse` the expression.  Arguments
    that are not strings are refused here; no matcher takes them.

    * `read`: the expression of a rule.
    * `textOf`: an expression as a rule.
    * `read_textOf`: it is read back.
    * `read_conjoin`: a rule after an expression and `&&`. -/

open List BoolExpr Bool String

namespace Ingress.Rules

/-- The call of a matcher. -/
structure Call where
  name : String
  args : List String
  deriving DecidableEq, Repr

/-! ## Lexemes -/

inductive Lexeme where
  | ident (name : String)
  | str (value : String)
  | lparen
  | rparen
  | comma
  | and
  | or
  | not
  | newline
  deriving DecidableEq, Repr

/-- A numeric escape: its base, how many digits are to come, its value so far, and whether it
    stands for a byte or for a character. -/
structure Escape where
  base : ℕ
  digits : ℕ
  value : ℕ
  isByte : Bool
  deriving DecidableEq, Repr

/-- Where in a lexeme the scanner is.  What was read is kept in reverse, of a string with
    escapes the bytes; a comment with a line break in it counts as one. -/
inductive LexState where
  | blank
  | ident (acc : List Char)
  | raw (acc : List Char)
  | quoted (acc : List UInt8)
  | escaped (acc : List UInt8)
  | numeric (acc : List UInt8) (e : Escape)
  | amp
  | bar
  | slash
  | lineComment
  | comment (newline : Bool)
  | star (newline : Bool)
  deriving DecidableEq, Repr

/-- The characters of an identifier. -/
def isIdent (c : Char) : Bool :=
  c.isAlphanum || c = '_'

/-- A character between two lexemes. -/
def lexBlank (c : Char) : Option (LexState × List Lexeme) :=
  match c with
  | ' ' | '\t' | '\r' => some (.blank, [])
  | '\n' => some (.blank, [.newline])
  | '`' => some (.raw [], [])
  | '"' => some (.quoted [], [])
  | '(' => some (.blank, [.lparen])
  | ')' => some (.blank, [.rparen])
  | ',' => some (.blank, [.comma])
  | '!' => some (.blank, [.not])
  | '&' => some (.amp, [])
  | '|' => some (.bar, [])
  | '/' => some (.slash, [])
  | c => if isIdent c && !c.isDigit then some (.ident [c], []) else none

/-- The character after a backslash. -/
def unescape : Char → Option Char
  | 'a' => some '\x07'
  | 'b' => some '\x08'
  | 'f' => some '\x0c'
  | 'n' => some '\n'
  | 'r' => some '\r'
  | 't' => some '\t'
  | 'v' => some '\x0b'
  | '\\' => some '\\'
  | '"' => some '"'
  | _ => none

/-- The numeric escape that begins with a character after a backslash; an octal one begins with
    its first digit. -/
def numericEscape (c : Char) : Option Escape :=
  match c with
  | 'x' => some ⟨16, 2, 0, true⟩
  | 'u' => some ⟨16, 4, 0, false⟩
  | 'U' => some ⟨16, 8, 0, false⟩
  | c => if '0' ≤ c && c ≤ '7' then some ⟨8, 2, c.toNat - 48, true⟩ else none

def digitVal (c : Char) : ℕ :=
  if c.isDigit then c.toNat - 48
  else if 'a' ≤ c && c ≤ 'f' then c.toNat - 87
  else if 'A' ≤ c && c ≤ 'F' then c.toNat - 55
  else 16

/-- The bytes of a numeric escape: a byte, or a character that is no surrogate. -/
def Escape.bytes (e : Escape) : Option (List UInt8) :=
  if e.isByte then if e.value ≤ 255 then some [.ofNat e.value] else none
  else if e.value.isValidChar then some (utf8EncodeChar (.ofNat e.value)) else none

/-- The text of bytes, behind the first `skip` of them.  A byte that is no part of a character
    stands as one of the last characters for private use. -/
def decode : ℕ → List UInt8 → List Char
  | _, [] => []
  | skip + 1, _ :: bs => decode skip bs
  | 0, b :: bs =>
    match (ByteArray.mk (b :: bs).toArray).utf8DecodeChar? 0 with
    | some c => c :: decode (c.utf8Size - 1) bs
    | none => .ofNat (0x10FF00 + b.toNat) :: decode 0 bs

/-- The bytes of a string, the last ones in front. -/
def pushChar (acc : List UInt8) (c : Char) : List UInt8 :=
  (utf8EncodeChar c).reverse ++ acc

/-- One character. -/
def lexStep (s : LexState) (c : Char) : Option (LexState × List Lexeme) :=
  match s with
  | .blank => lexBlank c
  | .ident acc =>
    if isIdent c then some (.ident (c :: acc), [])
    else (lexBlank c).map fun (s, out) => (s, .ident (ofList acc.reverse) :: out)
  | .raw acc =>
    -- a raw string ends at the next back quote, whatever it contains
    if c = '`' then some (.blank, [.str (ofList acc.reverse)])
    else if c = '\r' then some (.raw acc, [])
    else some (.raw (c :: acc), [])
  | .quoted acc =>
    if c = '"' then some (.blank, [.str (ofList (decode 0 acc.reverse))])
    else if c = '\\' then some (.escaped acc, [])
    else if c = '\n' then none
    else some (.quoted (pushChar acc c), [])
  | .escaped acc =>
    match unescape c with
    | some c => some (.quoted (pushChar acc c), [])
    | none => (numericEscape c).map fun e => (.numeric acc e, [])
  | .numeric acc e =>
    if e.base ≤ digitVal c then none
    else
      let e := { e with digits := e.digits - 1, value := e.value * e.base + digitVal c }
      if e.digits = 0 then e.bytes.map fun bs => (.quoted (bs.reverse ++ acc), [])
      else some (.numeric acc e, [])
  | .amp => if c = '&' then some (.blank, [.and]) else none
  | .bar => if c = '|' then some (.blank, [.or]) else none
  | .slash =>
    if c = '/' then some (.lineComment, [])
    else if c = '*' then some (.comment false, [])
    else none
  | .lineComment => if c = '\n' then some (.blank, [.newline]) else some (.lineComment, [])
  | .comment newline =>
    if c = '*' then some (.star newline, []) else some (.comment (newline || c = '\n'), [])
  | .star newline =>
    if c = '/' then some (.blank, if newline then [.newline] else [])
    else if c = '*' then some (.star newline, [])
    else some (.comment (newline || c = '\n'), [])

/-- The end of the rule. -/
def lexEnd : LexState → Option (List Lexeme)
  | .blank => some []
  | .lineComment => some []
  | .ident acc => some [.ident (ofList acc.reverse)]
  | _ => none

/-- The scanner. -/
def lexer : Transducer LexState Char Lexeme where
  step := lexStep
  finish := lexEnd

/-! ## Tokens -/

/-- Where in a call the tokenizer is: outside of calls, with the last token an operand
    or not, after the name of a matcher, in front of an argument, after one, or after
    the line break that ends the rule. -/
inductive CallState where
  | outside (operand : Bool)
  | name (n : String)
  | arg (n : String) (args : List String)
  | argEnd (n : String) (args : List String)
  | ended
  deriving DecidableEq, Repr

/-- One lexeme. -/
def tokenStep : CallState → Lexeme → Option (CallState × List (Token Call))
  | .outside _, .ident n => some (.name n, [])
  | .outside _, .lparen => some (.outside false, [.opening])
  | .outside _, .rparen => some (.outside true, [.closing])
  | .outside _, .and => some (.outside false, [.and])
  | .outside _, .or => some (.outside false, [.or])
  | .outside _, .not => some (.outside false, [.not])
  -- a line break after an operand ends the expression
  | .outside false, .newline => some (.outside false, [])
  | .outside true, .newline => some (.ended, [])
  | .name n, .lparen => some (.arg n [], [])
  | .arg n args, .str v => some (.argEnd n (args ++ [v]), [])
  | .arg n args, .rparen => some (.outside true, [.leaf ⟨n, args⟩])
  | .arg n args, .newline => some (.arg n args, [])
  | .argEnd n args, .comma => some (.arg n args, [])
  | .argEnd n args, .rparen => some (.outside true, [.leaf ⟨n, args⟩])
  | .ended, .newline => some (.ended, [])
  | _, _ => none

/-- The end of the rule. -/
def tokenEnd : CallState → Option (List (Token Call))
  | .outside _ => some []
  | .ended => some []
  | _ => none

def tokenizer : Transducer CallState Lexeme (Token Call) where
  step := tokenStep
  finish := tokenEnd

/-- A character that the scanner accepts nowhere: `NUL`, or a byte order mark. -/
def isIllegal (c : Char) : Bool :=
  c = '\x00' || c = '\uFEFF'

/-- The tokens of a rule. -/
def tokensOf (rule : List Char) : Option (List (Token Call)) :=
  if rule.any isIllegal then none
  else (lexer.run .blank rule).bind (tokenizer.run (.outside false))

/-- The expression that a rule writes. -/
def read (rule : String) : Option (Expr Call) :=
  (tokensOf rule.toList).bind parse

example : read "!Host(`a`) && (Path(\"\\x2f\\142\") || Query(`c`, \"\\u00e9\\xc3\\xa9\"))" =
    some (.and (.not (.leaf ⟨"Host", ["a"]⟩))
      (.paren (.or (.leaf ⟨"Path", ["/b"]⟩) (.leaf ⟨"Query", ["c", "éé"]⟩)))) := by
  decide +kernel

/-! ## Writing rules -/

/-- The arguments of a call. -/
def argsText : List String → List Char
  | [] => []
  | [a] => '`' :: a.toList ++ ['`']
  | a :: b :: args => '`' :: a.toList ++ '`' :: ',' :: argsText (b :: args)

/-- An expression as a rule, its strings between back quotes. -/
def textOf : Expr Call → List Char
  | .leaf c => c.name.toList ++ '(' :: argsText c.args ++ [')']
  | .and l r => textOf l ++ " && ".toList ++ textOf r
  | .or l r => textOf l ++ " || ".toList ++ textOf r
  | .not e => '!' :: textOf e
  | .paren e => '(' :: textOf e ++ [')']

/-- The name of a matcher. -/
def isName (name : String) : Bool :=
  name.toList.all isIdent && name.toList.head?.any fun c => !c.isDigit

/-- A call that can be written: no argument has a back quote. -/
def Call.isPlain (c : Call) : Bool :=
  isName c.name && c.args.all fun a => a.toList.all (· ≠ '`')

/-- No argument has a character that the scanner refuses. -/
def Call.isLegal (c : Call) : Bool :=
  c.args.all fun a => !a.toList.any isIllegal

/-- The value of a raw string: carriage returns are dropped. -/
def rawValue (a : String) : String :=
  ofList (a.toList.filter (· ≠ '\r'))

/-- The call that is read when the arguments are written as raw strings. -/
def Call.raw (c : Call) : Call where
  name := c.name
  args := c.args.map rawValue

/-- The lexemes of arguments. -/
def argsLexemes : List String → List Lexeme
  | [] => []
  | [a] => [.str a]
  | a :: b :: args => .str a :: .comma :: argsLexemes (b :: args)

/-- The lexemes of an expression. -/
def lexemesOf : Expr Call → List Lexeme
  | .leaf c => .ident c.name :: .lparen :: argsLexemes c.args ++ [.rparen]
  | .and l r => lexemesOf l ++ .and :: lexemesOf r
  | .or l r => lexemesOf l ++ .or :: lexemesOf r
  | .not e => .not :: lexemesOf e
  | .paren e => .lparen :: lexemesOf e ++ [.rparen]

theorem rawValue_eq {a : String} (h : '\r' ∉ a.toList) : rawValue a = a := by
  have hfilter : a.toList.filter (· ≠ '\r') = a.toList :=
    filter_eq_self.mpr fun c hc => decide_eq_true fun heq => h (heq ▸ hc)
  rw [rawValue, hfilter, ofList_toList]

/-- The text of a call with one argument. -/
theorem textOf_call (name a : String) :
    ofList (textOf (.leaf ⟨name, [a]⟩)) = name ++ "(`" ++ a ++ "`)" := by
  apply toList_injective
  simp [textOf, argsText]

/-- The text of a call with two arguments. -/
theorem textOf_call₂ (name a b : String) :
    ofList (textOf (.leaf ⟨name, [a, b]⟩)) = name ++ "(`" ++ a ++ "`,`" ++ b ++ "`)" := by
  apply toList_injective
  simp [textOf, argsText]

/-- The text of a chain is a join of texts. -/
theorem textOf_foldl {op : Expr Call → Expr Call → Expr Call} {sep : String}
    (hop : ∀ l r, textOf (op l r) = textOf l ++ sep.toList ++ textOf r) (e : Expr Call)
    (es : List (Expr Call)) : String.ofList (textOf (es.foldl op e)) =
      sep.intercalate ((e :: es).map fun e => String.ofList (textOf e)) := by
  induction es generalizing e with
  | nil => exact String.intercalate_singleton.symm
  | cons x es ih =>
    rw [foldl_cons, ih, map_cons, map_cons, map_cons, hop,
      String.intercalate_cons_cons, ← String.intercalate_cons_append]
    simp [String.ofList_append, String.append_assoc]

/-! ### Lexing back -/

open Transducer

theorem scan_raw {cs : List Char} (h : ∀ c ∈ cs, c ≠ '`') (acc : List Char) :
    lexer.scan (.raw acc) cs = some (.raw ((cs.filter (· ≠ '\r')).reverse ++ acc), []) := by
  induction cs generalizing acc with
  | nil => rfl
  | cons c cs ih =>
    obtain ⟨hc, hcs⟩ := forall_mem_cons.mp h
    by_cases hcr : c = '\r'
    · have hstep : lexer.step (.raw acc) c = some (.raw acc, []) := by
        simp [lexer, lexStep, hcr]
      simpa [hcr] using scan_cons hstep (ih hcs acc)
    · have hstep : lexer.step (.raw acc) c = some (.raw (c :: acc), []) := by
        simp [lexer, lexStep, hc, hcr]
      simpa [hcr] using scan_cons hstep (ih hcs (c :: acc))

/-- A string between back quotes. -/
theorem scan_quoted {a : String} (h : ∀ c ∈ a.toList, c ≠ '`') :
    lexer.scan .blank ('`' :: a.toList ++ ['`']) = some (.blank, [.str (rawValue a)]) := by
  have hopen : lexer.step .blank '`' = some (.raw [], []) := rfl
  have hraw := scan_raw h []
  have hclose : lexer.scan (.raw ((a.toList.filter (· ≠ '\r')).reverse ++ [])) ['`'] =
      some (.blank, [.str (rawValue a)]) := by
    simp [scan, lexer, lexStep, rawValue]
  exact scan_cons hopen (scan_append_some hraw hclose)

theorem scan_args {args : List String} (h : ∀ a ∈ args, ∀ c ∈ a.toList, c ≠ '`') :
    lexer.scan .blank (argsText args) = some (.blank, argsLexemes (args.map rawValue)) := by
  match args with
  | [] => rfl
  | [a] => exact scan_quoted (h a (by simp))
  | a :: b :: args =>
    have hquoted := scan_quoted (h a (.head _))
    have hcomma : lexer.step .blank ',' = some (.blank, [.comma]) := rfl
    have hrest := scan_args fun a ha => h a (.tail _ ha)
    simpa [argsText, argsLexemes] using
      scan_append_some hquoted (scan_cons hcomma hrest)

theorem scan_ident {cs : List Char} (h : ∀ c ∈ cs, isIdent c = true) (acc : List Char) :
    lexer.scan (.ident acc) cs = some (.ident (cs.reverse ++ acc), []) := by
  induction cs generalizing acc with
  | nil => rfl
  | cons c cs ih =>
    obtain ⟨hc, hcs⟩ := forall_mem_cons.mp h
    have hstep : lexer.step (.ident acc) c = some (.ident (c :: acc), []) := by
      simp [lexer, lexStep, hc]
    simpa using scan_cons hstep (ih hcs (c :: acc))

/-- Characters of identifiers are none of the others. -/
theorem lexBlank_ident {c : Char} (h : isIdent c = true) (hdigit : c.isDigit = false) :
    lexBlank c = some (.ident [c], []) := by
  unfold lexBlank
  split
  all_goals first
    | (revert h; decide)
    | simp [h, hdigit]

theorem scan_name {name : String} (h : isName name = true) :
    lexer.scan .blank (name.toList ++ ['(']) = some (.blank, [.ident name, .lparen]) := by
  obtain ⟨hall, hhead⟩ := (and_eq_true _ _).mp h
  cases hname : name.toList with
  | nil =>
    rw [hname] at hhead
    cases hhead
  | cons c cs =>
    rw [hname] at hall hhead
    obtain ⟨hc, hcs⟩ := forall_mem_cons.mp (all_eq_true.mp hall)
    have hfirst : lexer.step .blank c = some (.ident [c], []) :=
      lexBlank_ident hc (by simpa using hhead)
    have hlast : lexer.scan (.ident (cs.reverse ++ [c])) ['('] =
        some (.blank, [.ident name, .lparen]) := by
      have hparen : isIdent '(' = false := by decide
      have hofList : ofList (c :: cs) = name := by rw [← hname, ofList_toList]
      simp [scan, lexer, lexStep, hparen, lexBlank, hofList]
    exact scan_cons hfirst (scan_append_some (scan_ident hcs [c]) hlast)

variable {e : Expr Call}

open Call Expr

/-- The lexemes of what was written. -/
theorem scan_textOf (h : e.All fun c => c.isPlain = true) :
    lexer.scan .blank (textOf e) = some (.blank, lexemesOf (e.map raw)) := by
  have hand : lexer.scan .blank " && ".toList = some (.blank, [.and]) := by decide
  have hor : lexer.scan .blank " || ".toList = some (.blank, [.or]) := by decide
  have hopen : lexer.step .blank '(' = some (.blank, [.lparen]) := rfl
  have hclose : lexer.scan .blank [')'] = some (.blank, [.rparen]) := rfl
  have hnot : lexer.step .blank '!' = some (.blank, [.not]) := rfl
  induction e with
  | leaf c =>
    obtain ⟨hname, hargs⟩ := (and_eq_true _ _).mp h
    have hscan := scan_args (by simpa using hargs)
    simpa [textOf, lexemesOf, Expr.map, raw] using
      scan_append_some (scan_name hname) (scan_append_some hscan hclose)
  | and l r ihl ihr =>
    simpa [textOf, lexemesOf, Expr.map] using scan_append_some
      (scan_append_some (ihl h.1) hand) (ihr h.2)
  | or l r ihl ihr =>
    simpa [textOf, lexemesOf, Expr.map] using scan_append_some
      (scan_append_some (ihl h.1) hor) (ihr h.2)
  | not e ih => simpa [textOf, lexemesOf, Expr.map] using scan_cons hnot (ih h)
  | paren e ih =>
    simpa [textOf, lexemesOf, Expr.map] using
      scan_cons hopen (scan_append_some (ih h) hclose)

theorem scan_argsLexemes (n : String) (args : List String) (a : String) (args' : List String) :
    tokenizer.scan (.arg n args) (argsLexemes (a :: args')) =
      some (.argEnd n (args ++ a :: args'), []) := by
  induction args' generalizing args a with
  | nil => rfl
  | cons b args' ih =>
    have hstr : tokenizer.step (.arg n args) (.str a) = some (.argEnd n (args ++ [a]), []) := rfl
    have hcomma : tokenizer.step (.argEnd n (args ++ [a])) .comma =
        some (.arg n (args ++ [a]), []) := rfl
    simpa [argsLexemes] using
      scan_cons hstr (scan_cons hcomma (ih (args ++ [a]) b))

/-- The tokens of the lexemes of an expression. -/
theorem scan_lexemesOf (e : Expr Call) (operand : Bool) :
    tokenizer.scan (.outside operand) (lexemesOf e) = some (.outside true, e.tokens) := by
  have hclose : tokenizer.scan (.outside true) [.rparen] = some (.outside true, [.closing]) := rfl
  induction e generalizing operand with
  | leaf c =>
    obtain ⟨n, args⟩ := c
    have hname : tokenizer.step (.outside operand) (.ident n) = some (.name n, []) := by
      cases operand <;> rfl
    have hopen : tokenizer.step (.name n) .lparen = some (.arg n [], []) := rfl
    cases args with
    | nil =>
      have hend : tokenizer.scan (.arg n []) [.rparen] =
          some (.outside true, [.leaf ⟨n, []⟩]) := rfl
      simpa [lexemesOf, argsLexemes, tokens] using
        scan_cons hname (scan_cons hopen hend)
    | cons a args =>
      have hend : tokenizer.scan (.argEnd n ([] ++ a :: args)) [.rparen] =
          some (.outside true, [.leaf ⟨n, a :: args⟩]) := rfl
      simpa [lexemesOf, tokens] using scan_cons hname (scan_cons hopen
        (scan_append_some (scan_argsLexemes n [] a args) hend))
  | and l r ihl ihr =>
    have hand : tokenizer.step (.outside true) .and = some (.outside false, [.and]) := rfl
    simpa [lexemesOf, tokens] using
      scan_append_some (ihl operand) (scan_cons hand (ihr false))
  | or l r ihl ihr =>
    have hor : tokenizer.step (.outside true) .or = some (.outside false, [.or]) := rfl
    simpa [lexemesOf, tokens] using
      scan_append_some (ihl operand) (scan_cons hor (ihr false))
  | not e ih =>
    have hnot : tokenizer.step (.outside operand) .not = some (.outside false, [.not]) := by
      cases operand <;> rfl
    simpa [lexemesOf, tokens] using scan_cons hnot (ih false)
  | paren e ih =>
    have hopen : tokenizer.step (.outside operand) .lparen =
        some (.outside false, [.opening]) := by
      cases operand <;> rfl
    simpa [lexemesOf, tokens] using
      scan_cons hopen (scan_append_some (ih false) hclose)

/-! ### What the scanner refuses -/

theorem legal_argsText {args : List String} (h : ∀ a ∈ args, a.toList.any isIllegal = false) :
    (argsText args).any isIllegal = false := by
  have hquote : isIllegal '`' = false := by decide
  have hcomma : isIllegal ',' = false := by decide
  match args with
  | [] => rfl
  | [a] => simp only [argsText, any_append, any_cons, any_nil, hquote,
      h a (.head _), Bool.or_false]
  | a :: b :: args =>
    have hrest := legal_argsText fun a ha => h a (.tail _ ha)
    simp only [argsText, any_append, any_cons, hquote, hcomma, hrest,
      h a (.head _), Bool.or_false]

theorem legal_isIdent {c : Char} (h : isIdent c = true) : isIllegal c = false := by
  rw [eq_false_iff]
  intro hillegal
  simp only [isIllegal, or_eq_true, decide_eq_true_eq] at hillegal
  obtain rfl | rfl := hillegal
  all_goals revert h; decide

theorem legal_textOf (h : e.All fun c => c.isPlain = true)
    (hlegal : e.All fun c => c.isLegal = true) : (textOf e).any isIllegal = false := by
  have hopen : isIllegal '(' = false := by decide
  have hclose : isIllegal ')' = false := by decide
  have hnot : isIllegal '!' = false := by decide
  have hand : " && ".toList.any isIllegal = false := by decide
  have hor : " || ".toList.any isIllegal = false := by decide
  induction e with
  | leaf c =>
    have hname := all_eq_true.mp ((Bool.and_eq_true _ _).mp ((Bool.and_eq_true _ _).mp h).1).1
    have hnameLegal : c.name.toList.any isIllegal = false :=
      any_eq_false.mpr fun c hc => Bool.eq_false_iff.mp (legal_isIdent (hname c hc))
    have hargs : (argsText c.args).any isIllegal = false := by
      refine legal_argsText fun a ha => ?_
      simpa only [Bool.not_eq_true'] using all_eq_true.mp hlegal a ha
    simp only [textOf, any_append, any_cons, any_nil, hnameLegal, hopen, hargs,
      hclose, Bool.or_false]
  | and l r ihl ihr =>
    simp only [textOf, any_append, ihl h.1 hlegal.1, ihr h.2 hlegal.2, hand, Bool.or_false]
  | or l r ihl ihr =>
    simp only [textOf, any_append, ihl h.1 hlegal.1, ihr h.2 hlegal.2, hor, Bool.or_false]
  | not e ih => simp only [textOf, any_cons, ih h hlegal, hnot, Bool.or_false]
  | paren e ih =>
    simp only [textOf, any_append, any_cons, any_nil, ih h hlegal, hopen, hclose, Bool.or_false]

/-! ### Reading back -/

/-- **Reading back** what was written: if it is read at all, it is the expression, its
    strings without carriage returns. -/
theorem read_textOf (hgrouped : e.Grouped)
    (h : e.All fun c => c.isPlain = true) : read (ofList (textOf e)) =
      if (textOf e).any isIllegal then none else some (e.map raw) := by
  have hlex : lexer.run .blank (textOf e) = some (lexemesOf (e.map raw) ++ []) :=
    run_of_scan (scan_textOf h) rfl
  have htokens : tokenizer.run (.outside false) (lexemesOf (e.map raw)) =
      some ((e.map raw).tokens ++ []) :=
    run_of_scan (scan_lexemesOf _ false) rfl
  unfold Rules.read tokensOf
  rw [toList_ofList, hlex, append_nil, Option.bind_some, htokens, append_nil]
  cases (textOf e).any isIllegal with
  | true => rfl
  | false => exact parse_tokens (grouped_map.mpr hgrouped)

/-- What is read is grouped. -/
theorem grouped_of_read {rule : String} (h : read rule = some e) : e.Grouped := by
  obtain ⟨toks, _, hparse⟩ := Option.bind_eq_some_iff.mp h
  exact grouped_of_parse hparse

theorem tokensOf_append (h : e.All fun c => c.isPlain = true)
    (hlegal : e.All fun c => c.isLegal = true) (rest : List Char) :
    tokensOf (textOf e ++ " && ".toList ++ rest) =
      (tokensOf rest).map ((e.map raw).tokens ++ .and :: ·) := by
  have hand : lexer.scan .blank " && ".toList = some (.blank, [.and]) := by decide
  have handLegal : " && ".toList.any isIllegal = false := by decide
  have handToken : tokenizer.scan (.outside true) [.and] = some (.outside false, [.and]) := rfl
  have hlex := scan_append_some (scan_textOf h) hand
  have htokens := scan_append_some (scan_lexemesOf (e.map raw) false) handToken
  unfold tokensOf
  rw [any_append, any_append, legal_textOf h hlegal, handLegal, Bool.false_or,
    Bool.false_or, run_append rest hlex]
  cases rest.any isIllegal with
  | true => rfl
  | false =>
    cases hrest : lexer.run .blank rest with
    | none => rfl
    | some lexemes => simpa using run_append lexemes htokens

/-- **A factor in front** of a rule. -/
theorem read_conjoin (hrank : e.rank = 2) (hgrouped : e.Grouped)
    (h : e.All fun c => c.isPlain = true) (hlegal : e.All fun c => c.isLegal = true)
    (rule : String) : read (ofList (textOf e) ++ " && " ++ rule) =
      (read rule).map (conjoin (e.map raw)) := by
  have hlist : (ofList (textOf e) ++ " && " ++ rule).toList =
      textOf e ++ " && ".toList ++ rule.toList := by simp
  unfold Rules.read
  rw [hlist, tokensOf_append h hlegal]
  cases tokensOf rule.toList with
  | none => rfl
  | some toks => exact parse_conjoin (rank_map.trans hrank) (grouped_map.mpr hgrouped) toks

end Ingress.Rules

import TDB.Lib.LongestMatch
import TDB.SqlGrammar

namespace TDB.Sql

open LongestMatch (MatchesAll)

/-! ## The classes of `lex_sql.l` -/

/-- `WHITE_SAPCE`. -/
def isBlankByte (b : UInt8) : Bool := b = 32 || b = 9 || b = 8 || b = 12

def isDigitByte (b : UInt8) : Bool := 48 ≤ b && b ≤ 57

def isIdStart (b : UInt8) : Bool := (65 ≤ b && b ≤ 90) || (97 ≤ b && b ≤ 122) || b = 95

def isIdRest (b : UInt8) : Bool := isIdStart b || isDigitByte b

def isQuote (b : UInt8) : Bool := b = 34 || b = 39

/-- `%option case-insensitive`. -/
def toLower (b : UInt8) : UInt8 := if 65 ≤ b && b ≤ 90 then b + 32 else b

/-! ## How much the rules match -/

def oneOf (p : UInt8 → Bool) : List UInt8 → ℕ
  | [] => 0
  | b :: _ => if p b then 1 else 0

/-- `{DIGIT}+`. -/
def digits (text : List UInt8) : ℕ := (text.takeWhile isDigitByte).length

/-- `{DIGIT}+{DOT}{DIGIT}+`. -/
def floatLength (text : List UInt8) : ℕ :=
  match text.drop (digits text) with
  | [] => 0
  | dot :: fraction =>
    if digits text ≠ 0 ∧ dot = 46 ∧ digits fraction ≠ 0 then digits text + 1 + digits fraction
    else 0

def wordBytes (word : String) : List UInt8 := Value.asciiBytes word.toList

def wordLength (word : String) (text : List UInt8) : ℕ :=
  let bytes := wordBytes word
  if (text.take bytes.length).map toLower = bytes.map toLower then bytes.length else 0

/-- `{ID}`. -/
def idLength : List UInt8 → ℕ
  | [] => 0
  | b :: rest => if isIdStart b then 1 + (rest.takeWhile isIdRest).length else 0

def afterByte (p : UInt8 → Bool) : List UInt8 → Option (List UInt8)
  | [] => none
  | b :: rest => if p b then some rest else none

/-- What is behind `[0-9]{lo,hi}`; a byte that is no digit has to follow. -/
def afterDigits (lo hi : ℕ) (text : List UInt8) : Option (List UInt8) :=
  if lo ≤ digits text ∧ digits text ≤ hi then some (text.drop (digits text)) else none

def afterDate (text : List UInt8) : Option (List UInt8) := do
  let year ← afterByte isQuote text
  let dash ← afterDigits 4 4 year
  let month ← afterByte (· = 45) dash
  let dash' ← afterDigits 1 2 month
  let day ← afterByte (· = 45) dash'
  let quote ← afterDigits 1 2 day
  afterByte isQuote quote

def dateLength (text : List UInt8) : ℕ :=
  match afterDate text with
  | none => 0
  | some rest => text.length - rest.length

/-- From a quotation mark to the next one of its kind. -/
def quotedLength (quote : UInt8) : List UInt8 → ℕ
  | [] => 0
  | b :: rest =>
    let body := rest.takeWhile (· ≠ quote)
    if b = quote ∧ body.length < rest.length then body.length + 2 else 0

/-! ## The rules -/

/-- The symbols in front of `YYNTOKENS`, but for the end of the input. -/
def Symbol.isToken (symbol : Symbol) : Bool := 0 < symbol.ctorIdx && symbol.ctorIdx < 79

structure Lexeme where
  symbol : Symbol
  value : symbol.T
  isToken : symbol.isToken = true

/-- What the code of a rule does; a negative character is the end of the input for the parser. -/
inductive LexAction where
  | skip
  | token (lexeme : Lexeme)
  | eof

abbrev LexRule := LongestMatch.Rule UInt8 LexAction

def Symbol.isPlain (symbol : Symbol) : Bool := symbol.member = .untyped && symbol.isToken

abbrev PlainToken := { symbol : Symbol // symbol.isPlain = true }

theorem PlainToken.untyped (t : PlainToken) : t.1.member = .untyped := by
  have h := t.2
  unfold Symbol.isPlain at h
  rw [Bool.and_eq_true, decide_eq_true_eq] at h
  exact h.1

theorem PlainToken.isToken (t : PlainToken) : t.1.isToken = true := by
  have h := t.2
  unfold Symbol.isPlain at h
  rw [Bool.and_eq_true] at h
  exact h.2

def PlainToken.lexeme (t : PlainToken) : Lexeme :=
  ⟨t.1, cast (congrArg Member.T t.untyped.symm) (), t.isToken⟩

/-- `atoi`: `strtol` stops at the largest `long`, and the `int` keeps the low bits. -/
def atoi (yytext : List UInt8) : Int32 :=
  Int32.ofNat (min (Nat.ofDigitChars 10 (Value.asciiChars yytext) 0) (2 ^ 63 - 1))

theorem oneOf_le (p : UInt8 → Bool) (text : List UInt8) : oneOf p text ≤ text.length := by
  cases text with
  | nil => exact Nat.le_refl 0
  | cons b rest =>
    rw [oneOf, List.length_cons]
    split_ifs <;> omega

theorem digits_le (text : List UInt8) : digits text ≤ text.length :=
  (List.takeWhile_sublist _).length_le

theorem floatLength_le (text : List UInt8) : floatLength text ≤ text.length := by
  unfold floatLength
  split
  · exact Nat.zero_le _
  · next dot fraction hdrop =>
    have hlength := congrArg List.length hdrop
    rw [List.length_drop, List.length_cons] at hlength
    have hfraction := digits_le fraction
    split_ifs <;> omega

theorem wordLength_le (word : String) (text : List UInt8) :
    wordLength word text ≤ text.length := by
  unfold wordLength
  dsimp only
  split_ifs with h
  · have hlength := congrArg List.length h
    rw [List.length_map, List.length_map, List.length_take] at hlength
    omega
  · exact Nat.zero_le _

theorem idLength_le (text : List UInt8) : idLength text ≤ text.length := by
  cases text with
  | nil => exact Nat.le_refl 0
  | cons b rest =>
    have hrest := (List.takeWhile_sublist isIdRest (l := rest)).length_le
    rw [idLength, List.length_cons]
    split_ifs <;> omega

theorem dateLength_le (text : List UInt8) : dateLength text ≤ text.length := by
  unfold dateLength
  split <;> omega

theorem quotedLength_le (quote : UInt8) (text : List UInt8) :
    quotedLength quote text ≤ text.length := by
  cases text with
  | nil => exact Nat.le_refl 0
  | cons b rest =>
    rw [quotedLength, List.length_cons]
    split_ifs with h
    · have hbody := h.2
      omega
    · exact Nat.zero_le _

def wordRule (word : String) (t : PlainToken) : LexRule :=
  ⟨wordLength word, wordLength_le word, fun _ => .token t.lexeme⟩

def blankRule : LexRule := ⟨oneOf isBlankByte, oneOf_le isBlankByte, fun _ => .skip⟩

def newlineRule : LexRule := ⟨oneOf (· = 10), oneOf_le (· = 10), fun _ => .skip⟩

def numberRule : LexRule :=
  ⟨digits, digits_le, fun yytext => .token ⟨.NUMBER, atoi yytext, rfl⟩⟩

/-- `atof` is `(float)(atof(yytext))`. -/
def floatRule (atof : List UInt8 → UInt32) : LexRule :=
  ⟨floatLength, floatLength_le, fun yytext => .token ⟨.FLOAT, atof yytext, rfl⟩⟩

def dateRule : LexRule :=
  ⟨dateLength, dateLength_le, fun yytext => .token ⟨.DATE_STR, yytext, rfl⟩⟩

def idRule : LexRule :=
  ⟨idLength, idLength_le, fun yytext => .token ⟨.ID, yytext, rfl⟩⟩

def stringRule (quote : UInt8) : LexRule :=
  ⟨quotedLength quote, quotedLength_le quote, fun yytext => .token ⟨.SSS, yytext, rfl⟩⟩

/-- `.`, which returns the character. -/
def anyRule : LexRule :=
  ⟨oneOf (· ≠ 10), oneOf_le (· ≠ 10), fun yytext =>
    if yytext.headD 0 < 128 then .token (PlainToken.lexeme ⟨.YYUNDEF, rfl⟩) else .eof⟩

/-- The words in front of the rule for dates. -/
def firstWords : List (String × PlainToken) := [
  (";", ⟨.SEMICOLON, rfl⟩), (".", ⟨.DOT, rfl⟩), ("EXIT", ⟨.EXIT, rfl⟩), ("HELP", ⟨.HELP, rfl⟩),
  ("ASC", ⟨.ASC, rfl⟩), ("DESC", ⟨.DESC, rfl⟩), ("ORDER", ⟨.ORDER, rfl⟩), ("BY", ⟨.BY, rfl⟩),
  ("IS", ⟨.IS, rfl⟩), ("NULL", ⟨.NULL_T, rfl⟩), ("CREATE", ⟨.CREATE, rfl⟩),
  ("DROP", ⟨.DROP, rfl⟩), ("VIEW", ⟨.VIEW, rfl⟩), ("TABLE", ⟨.TABLE, rfl⟩),
  ("TABLES", ⟨.TABLES, rfl⟩), ("INDEX", ⟨.INDEX, rfl⟩), ("UNIQUE", ⟨.UNIQUE, rfl⟩),
  ("INNER", ⟨.INNER, rfl⟩), ("JOIN", ⟨.JOIN, rfl⟩), ("ON", ⟨.ON, rfl⟩), ("SHOW", ⟨.SHOW, rfl⟩),
  ("SYNC", ⟨.SYNC, rfl⟩), ("SELECT", ⟨.SELECT, rfl⟩), ("CALC", ⟨.CALC, rfl⟩),
  ("FROM", ⟨.FROM, rfl⟩), ("WHERE", ⟨.WHERE, rfl⟩), ("AND", ⟨.AND, rfl⟩), ("OR", ⟨.OR, rfl⟩),
  ("INSERT", ⟨.INSERT, rfl⟩), ("INTO", ⟨.INTO, rfl⟩), ("VALUES", ⟨.VALUES, rfl⟩),
  ("DELETE", ⟨.DELETE, rfl⟩), ("UPDATE", ⟨.UPDATE, rfl⟩), ("SET", ⟨.SET, rfl⟩),
  ("BEGIN", ⟨.TRX_BEGIN, rfl⟩), ("COMMIT", ⟨.TRX_COMMIT, rfl⟩),
  ("ROLLBACK", ⟨.TRX_ROLLBACK, rfl⟩), ("INT", ⟨.INT_T, rfl⟩), ("CHAR", ⟨.STRING_T, rfl⟩),
  ("FLOAT", ⟨.FLOAT_T, rfl⟩), ("DATE", ⟨.DATE_T, rfl⟩), ("TEXT", ⟨.TEXT_T, rfl⟩),
  ("NOT", ⟨.NOT_T, rfl⟩), ("LIKE", ⟨.LIKE_T, rfl⟩), ("COUNT", ⟨.COUNT_T, rfl⟩),
  ("MIN", ⟨.MIN_T, rfl⟩), ("MAX", ⟨.MAX_T, rfl⟩), ("AVG", ⟨.AVG_T, rfl⟩), ("SUM", ⟨.SUM_T, rfl⟩)]

/-- The words between the rules for dates and for names. -/
def secondWords : List (String × PlainToken) := [
  ("LOAD", ⟨.LOAD, rfl⟩), ("DATA", ⟨.DATA, rfl⟩), ("INFILE", ⟨.INFILE, rfl⟩),
  ("EXPLAIN", ⟨.EXPLAIN, rfl⟩), ("AS", ⟨.AS, rfl⟩), ("IN", ⟨.IN_T, rfl⟩),
  ("EXISTS", ⟨.EXISTS_T, rfl⟩), ("HAVING", ⟨.HAVING, rfl⟩), ("GROUP", ⟨.GROUP, rfl⟩)]

def operators : List (String × PlainToken) := [
  ("(", ⟨.LBRACE, rfl⟩), (")", ⟨.RBRACE, rfl⟩), (",", ⟨.COMMA, rfl⟩), ("=", ⟨.EQ, rfl⟩),
  ("<=", ⟨.LE, rfl⟩), ("<>", ⟨.NE, rfl⟩), ("!=", ⟨.NE, rfl⟩), ("<", ⟨.LT, rfl⟩),
  (">=", ⟨.GE, rfl⟩), (">", ⟨.GT, rfl⟩), ("+", ⟨.plus, rfl⟩), ("-", ⟨.minus, rfl⟩),
  ("*", ⟨.star, rfl⟩), ("/", ⟨.slash, rfl⟩)]

def wordRules (words : List (String × PlainToken)) : List LexRule :=
  words.map fun word => wordRule word.1 word.2

def lexRules (atof : List UInt8 → UInt32) : List LexRule :=
  [blankRule, newlineRule, numberRule, floatRule atof] ++ wordRules firstWords ++ [dateRule] ++
    wordRules secondWords ++ [idRule] ++ wordRules operators ++
    [stringRule 34, stringRule 39, anyRule]

/-! ## The tokens of a text -/

structure Token where
  lexeme : Lexeme
  yylloc : YYLTYPE

/-- `YY_USER_ACTION` and `yylex`, from this `yycolumn` on. -/
def yylexFrom (yycolumn : ℕ) : List (LexAction × List UInt8) → List Token
  | [] => []
  | (.skip, yytext) :: rest => yylexFrom (yycolumn + yytext.length) rest
  | (.token lexeme, yytext) :: rest =>
    ⟨lexeme, ⟨yycolumn, yycolumn + yytext.length - 1⟩⟩ ::
      yylexFrom (yycolumn + yytext.length) rest
  | (.eof, _) :: _ => []

def yylex (atof : List UInt8 → UInt32) (sql : List UInt8) : List Token :=
  yylexFrom 0 (LongestMatch.scan (lexRules atof) sql)

theorem lexRules_cover (atof : List UInt8 → UInt32) : MatchesAll (lexRules atof) := by
  intro b text
  by_cases hb : b = 10
  · refine ⟨newlineRule, by simp [lexRules], ?_⟩
    simp [newlineRule, oneOf, hb]
  · refine ⟨anyRule, by simp [lexRules], ?_⟩
    simp [anyRule, oneOf, hb]

end TDB.Sql

import TDB.SqlRules

namespace TDB.Sql

open LongestMatch (Taken tokenizes_scan)
open Recorder (DateStr)
open Value (asciiChars)

/-! ## What the tokens of a text are -/

section Tokens

variable {word rest : List UInt8} {b : UInt8} {l : Lexeme}

theorem length_takeWhile_of_append {p : UInt8 → Bool}
    (h : ((word ++ rest).takeWhile p).length = word.length) :
    (word.takeWhile p).length = word.length := by
  rw [List.takeWhile_append] at h
  split at h
  · assumption
  · exact h

theorem isName_of_idLength (h : idLength (word ++ rest) = word.length) (hpos : 0 < word.length) :
    IsName (text word) := by
  refine ⟨word, List.ne_nil_of_length_pos hpos, ?_, rfl⟩
  cases word with
  | nil => exact absurd hpos (Nat.lt_irrefl 0)
  | cons b word =>
    rw [List.cons_append, idLength, List.length_cons] at h
    rw [idLength, List.length_cons]
    split at h
    · next hb =>
      have hrest : ((word ++ rest).takeWhile isIdRest).length = word.length := by omega
      rw [if_pos hb, length_takeWhile_of_append hrest]
      omega
    · cases h

theorem isDigit_ofByte (h : isDigitByte b = true) : (Char.ofNat b.toNat).isDigit = true := by
  unfold isDigitByte at h
  rw [Bool.and_eq_true, decide_eq_true_eq, decide_eq_true_eq, UInt8.le_iff_toNat_le,
    UInt8.le_iff_toNat_le] at h
  obtain ⟨hlo, hhi⟩ := h
  change 48 ≤ b.toNat at hlo
  change b.toNat ≤ 57 at hhi
  generalize b.toNat = n at hlo hhi
  have hall : ∀ n < 58, 48 ≤ n → (Char.ofNat n).isDigit = true := by decide
  exact hall n (by omega) hlo

theorem isDigit_asciiChars (h : word.all isDigitByte = true) :
    (asciiChars word).all Char.isDigit = true := by
  rw [List.all_eq_true] at h ⊢
  intro c hc
  obtain ⟨b, hb, rfl⟩ := List.mem_map.mp hc
  exact isDigit_ofByte (h b hb)

theorem afterByte_some {p : UInt8 → Bool} (h : afterByte p word = some rest) :
    ∃ b, word = b :: rest ∧ p b = true := by
  cases word with
  | nil => cases h
  | cons b bytes =>
    rw [afterByte] at h
    split at h
    · next hb => exact ⟨b, by rw [Option.some.inj h], hb⟩
    · cases h

theorem afterDigits_some {lo hi : ℕ} (h : afterDigits lo hi word = some rest) :
    ∃ ds, word = ds ++ rest ∧ (lo ≤ ds.length ∧ ds.length ≤ hi) ∧ ds.all isDigitByte = true := by
  unfold afterDigits at h
  split at h
  · next hcount =>
    have hparts : word.takeWhile isDigitByte ++ word.dropWhile isDigitByte = word :=
      List.takeWhile_append_dropWhile
    have hdrop : word.drop (digits word) = word.dropWhile isDigitByte := by
      have hleft := @List.drop_left _ (word.takeWhile isDigitByte) (word.dropWhile isDigitByte)
      rwa [hparts] at hleft
    refine ⟨word.takeWhile isDigitByte, ?_, hcount, List.all_takeWhile⟩
    rw [← Option.some.inj h, hdrop, hparts]
  · cases h

/-- A literal of a date: two digits may be one in the month and in the day. -/
theorem afterDate_some (h : afterDate word = some rest) :
    ∃ q q' year month day, word = q :: (year ++ 45 :: (month ++ 45 :: day)) ++ q' :: rest ∧
      (year.length = 4 ∧ year.all isDigitByte = true) ∧
      ((month.length = 1 ∨ month.length = 2) ∧ month.all isDigitByte = true) ∧
      (day.length = 1 ∨ day.length = 2) ∧ day.all isDigitByte = true := by
  unfold afterDate at h
  simp only [Option.bind_eq_bind, Option.bind_eq_some_iff] at h
  obtain ⟨_, hquote, _, hyear, _, hdash, _, hmonth, _, hdash', _, hday, hquote'⟩ := h
  obtain ⟨q, rfl, -⟩ := afterByte_some hquote
  obtain ⟨year, rfl, hyearLength, hyearDigits⟩ := afterDigits_some hyear
  obtain ⟨b, rfl, hb⟩ := afterByte_some hdash
  obtain ⟨month, rfl, hmonthLength, hmonthDigits⟩ := afterDigits_some hmonth
  obtain ⟨b', rfl, hb'⟩ := afterByte_some hdash'
  obtain ⟨day, rfl, hdayLength, hdayDigits⟩ := afterDigits_some hday
  obtain ⟨q', rfl, -⟩ := afterByte_some hquote'
  obtain rfl := of_decide_eq_true hb
  obtain rfl := of_decide_eq_true hb'
  exact ⟨q, q', year, month, day, by simp, ⟨by omega, hyearDigits⟩, ⟨by omega, hmonthDigits⟩,
    by omega, hdayDigits⟩

theorem dateStr_of_dateLength (h : dateLength (word ++ rest) = word.length)
    (hpos : 0 < word.length) : ∃ str : DateStr, asciiChars (substr word) = str.text := by
  unfold dateLength at h
  split at h
  · omega
  next rest' hdate =>
  obtain ⟨q, q', year, month, day, hword, hyear, hmonth, hday⟩ := afterDate_some hdate
  have hparts : word ++ rest = (q :: (year ++ 45 :: (month ++ 45 :: day)) ++ [q']) ++ rest' := by
    rw [hword]
    simp
  have hlength : word.length = (q :: (year ++ 45 :: (month ++ 45 :: day)) ++ [q']).length := by
    rw [← h, hparts, List.length_append]
    omega
  obtain ⟨rfl, -⟩ := List.append_inj hparts hlength
  refine ⟨⟨asciiChars year, asciiChars month, asciiChars day, ?_, ?_, ?_⟩, ?_⟩
  · exact ⟨by rw [asciiChars, List.length_map, hyear.1], isDigit_asciiChars hyear.2⟩
  · exact ⟨by rw [asciiChars, List.length_map]; exact hmonth.1, isDigit_asciiChars hmonth.2⟩
  · exact ⟨by rw [asciiChars, List.length_map]; exact hday.1, isDigit_asciiChars hday.2⟩
  · have hsubstr : substr (q :: (year ++ 45 :: (month ++ 45 :: day)) ++ [q']) =
        year ++ 45 :: (month ++ 45 :: day) := by
      unfold substr
      rw [List.length_append, List.length_singleton, Nat.add_sub_cancel, List.take_left]
      rfl
    rw [hsubstr]
    simp [asciiChars, DateStr.text]

theorem good_of_untyped {symbol : Symbol} (h : symbol.member = .untyped) (v : symbol.T) :
    Good symbol v := by
  cases symbol <;> trivial

theorem good_of_wordRules {words : List (String × PlainToken)} {r : LexRule}
    (hr : r ∈ wordRules words) (h : r.action word = .token l) : Good l.symbol l.value := by
  obtain ⟨⟨name, t⟩, -, rfl⟩ := List.mem_map.mp hr
  obtain rfl := LexAction.token.inj h
  exact good_of_untyped t.untyped _

theorem good_of_rule {atof : List UInt8 → UInt32} {r : LexRule}
    (htaken : Taken (word ++ rest) (lexRules atof) r)
    (hlength : r.length (word ++ rest) = word.length) (h : r.action word = .token l) :
    Good l.symbol l.value := by
  have hpos : 0 < word.length := hlength ▸ htaken.pos
  have hmem := htaken.mem
  simp only [lexRules, List.mem_append, List.mem_cons, List.not_mem_nil, or_false] at hmem
  rcases hmem with (((((hr | hr) | hr) | hr) | hr) | hr) | hr
  · rcases hr with rfl | rfl | rfl | rfl
    · cases h
    · cases h
    · obtain rfl := LexAction.token.inj h
      trivial
    · obtain rfl := LexAction.token.inj h
      trivial
  · exact good_of_wordRules hr h
  · subst hr
    obtain rfl := LexAction.token.inj h
    exact dateStr_of_dateLength hlength hpos
  · exact good_of_wordRules hr h
  · subst hr
    obtain rfl := LexAction.token.inj h
    exact isName_of_idLength hlength hpos
  · exact good_of_wordRules hr h
  · rcases hr with rfl | rfl | rfl
    · obtain rfl := LexAction.token.inj h
      trivial
    · obtain rfl := LexAction.token.inj h
      trivial
    · dsimp only [anyRule] at h
      split at h
      · obtain rfl := LexAction.token.inj h
        trivial
      · cases h

def GoodTokens (tokens : List Token) : Prop := ∀ t ∈ tokens, Good t.lexeme.symbol t.lexeme.value

theorem mem_of_yylexFrom {found : List (LexAction × List UInt8)} {yycolumn : ℕ} {t : Token}
    (h : t ∈ yylexFrom yycolumn found) : ∃ word, (.token t.lexeme, word) ∈ found := by
  induction found generalizing yycolumn with
  | nil => cases h
  | cons entry found ih =>
    obtain ⟨action, yytext⟩ := entry
    cases action with
    | skip =>
      obtain ⟨word, hword⟩ := ih h
      exact ⟨word, List.mem_cons_of_mem _ hword⟩
    | token lexeme =>
      rcases List.mem_cons.mp h with rfl | h
      · exact ⟨yytext, List.mem_cons_self⟩
      · obtain ⟨word, hword⟩ := ih h
        exact ⟨word, List.mem_cons_of_mem _ hword⟩
    | eof => cases h

theorem goodTokens_yylex (atof : List UInt8 → UInt32) (sql : List UInt8) :
    GoodTokens (yylex atof sql) := by
  intro t ht
  obtain ⟨word, hword⟩ := mem_of_yylexFrom ht
  obtain ⟨r, rest, htaken, hlength, haction⟩ :=
    (tokenizes_scan (lexRules_cover atof) sql).mem hword
  exact good_of_rule htaken hlength haction.symm

end Tokens

end TDB.Sql

import SimpleOlap.Sql.Lexer

/-!
# Where the lexer stops

* `Lexer.activate`: one activation of NextToken, which returns a token or calls itself at a place of the
  text. `Lexer.Returns` and `Lexer.TokenizeReturns` are the runs that come to an end; `Lexer.nextToken` and
  `Lexer.lex` say the same (`returns_iff`, `tokenizeReturns_lex`).
* `Lexer.stopOf`: the place, outside string literals, where the lexer stops: the end of the input, a
  `--`, or a `!` without `=`.
* `lexer_terminates_iff`: the lexer comes to an end exactly where it does not stop at a `--`.
* `lexer_consumes_iff`: it has consumed the whole input exactly where nothing is behind a `!` that it
  stops at.

Source: `lexer.cpp` NextToken and Tokenize. A text stands for the input from the current place on.
-/

namespace SimpleOlap

open Lib

namespace Lexer

/-! ## Runs -/

/-- What one activation of NextToken does. -/
inductive Activation
  | returns (token : Token) (rest : Bytes)
  | callsItself (text : Bytes)
  deriving DecidableEq

/-- Source: `lexer.cpp` NextToken. -/
def activate (sql : Bytes) : Activation :=
  match sql.dropWhile isSpace with
  | [] => .returns endToken []
  | c :: rest =>
    if isIdentStart c then .returns (readIdentifierOrKeyword (c :: rest)).1
      (readIdentifierOrKeyword (c :: rest)).2
    else if isDigit c then .returns (readNumber (c :: rest)).1 (readNumber (c :: rest)).2
    else if c = 39 then .returns (readString rest).1 (readString rest).2
    else if c = 45 then
      if rest.head? = some 45 then .callsItself ((c :: rest).dropWhile isSpace) else .returns
        ⟨.minus, [c]⟩ rest
    else
      match operator? c rest with
      | some (token, rest) => .returns token rest
      | none => .callsItself rest

/-- NextToken comes to an end, with a token and the text behind it. -/
inductive Returns : Bytes → Token → Bytes → Prop
  | returns {sql rest : Bytes} {token : Token} (h : activate sql = .returns token rest) :
    Returns sql token rest
  | calls {sql text rest : Bytes} {token : Token} (h : activate sql = .callsItself text)
      (hrest : Returns text token rest) : Returns sql token rest

/-- Tokenize comes to an end, with the tokens and the text that is left. -/
inductive TokenizeReturns : Bytes → List Token → Bytes → Prop
  | last {sql rest : Bytes} {token : Token} (h : Returns sql token rest)
    (htype : token.type = .endOfInput) :
      TokenizeReturns sql [token] rest
  | next {sql rest left : Bytes} {token : Token} {tokens : List Token} (h : Returns sql token rest)
      (htype : token.type ≠ .endOfInput) (hrest : TokenizeReturns rest tokens left) :
      TokenizeReturns sql (token :: tokens) left

/-! ## Runs and functions -/

/-- Leading white space makes no difference. -/
theorem nextToken_dropWhile (sql : Bytes) : nextToken (sql.dropWhile isSpace) = nextToken sql := by
  induction sql with
  | nil => rfl
  | cons c rest ih =>
    by_cases hspace : isSpace c = true
    · rw [List.dropWhile_cons_of_pos hspace, ih, nextToken, if_pos hspace]
    · rw [List.dropWhile_cons_of_neg hspace]

/-- A text after its white space is empty, or begins with another character. -/
theorem dropWhile_isSpace_cases (sql : Bytes) :
    sql.dropWhile isSpace = [] ∨ ∃ c rest, sql.dropWhile isSpace = c :: rest ∧ isSpace c = false := by
  rcases hdrop : sql.dropWhile isSpace with _ | ⟨c, rest⟩
  · exact .inl rfl
  · have hhead := List.head?_dropWhile_not isSpace sql
    rw [hdrop] at hhead
    exact .inr ⟨c, rest, rfl, hhead⟩

/-- The first character is of no kind, and is passed over. Source: `lexer.cpp` NextToken, the default
case. -/
def isUnknown (c : UInt8) : Bool :=
  !isIdentStart c && !isDigit c && c != 39 && c != 45 && (operator? c []).isNone

/-- An activation returns the next token, calls itself at a `--`, or calls itself behind a character that it
passes over. -/
inductive Activated (sql : Bytes) : Activation → Prop
  | returns {token : Token} {rest : Bytes} (h : nextToken sql = some (token, rest)) :
      Activated sql (.returns token rest)
  | comment {rest : Bytes} (h : sql.dropWhile isSpace = 45 :: 45 :: rest) :
      Activated sql (.callsItself (45 :: 45 :: rest))
  | unknown {c : UInt8} {rest : Bytes} (h : sql.dropWhile isSpace = c :: rest) (hc : isUnknown c = true)
      (hnext : nextToken sql = nextToken rest) : Activated sql (.callsItself rest)

/-- What is behind an operator does not decide whether it is one. -/
theorem operator?_eq_none {c : UInt8} {rest : Bytes} (h : operator? c rest = none) (rest' : Bytes) :
    operator? c rest' = none := by
  unfold operator? at h ⊢
  split at h <;> first | rfl | cases h

theorem activated (sql : Bytes) : Activated sql (activate sql) := by
  have hnext := (nextToken_dropWhile sql).symm
  unfold activate
  rcases dropWhile_isSpace_cases sql with hnil | ⟨c, rest, hcons, hspace⟩
  · rw [hnil] at hnext ⊢
    exact .returns hnext
  · rw [hcons, nextToken, if_neg (Bool.eq_false_iff.mp hspace)] at hnext
    rw [hcons]
    dsimp only
    split_ifs at hnext ⊢ with hstart hdigit hquote hminus hcomment
    · exact .returns hnext
    · exact .returns hnext
    · exact .returns hnext
    · obtain ⟨rest, rfl⟩ := List.head?_eq_some_iff.mp hcomment
      subst hminus
      rw [List.dropWhile_cons_of_neg (by decide)]
      exact .comment hcons
    · exact .returns hnext
    · rcases hop : operator? c rest with _ | ⟨token, behind⟩
      · simp only [hop] at hnext
        refine .unknown hcons ?_ hnext
        simp [isUnknown, hstart, hdigit, hquote, hminus, operator?_eq_none hop []]
      · simp only [hop] at hnext
        exact .returns hnext

/-- At a `--` there is no next token. -/
theorem nextToken_comment (rest : Bytes) : nextToken (45 :: 45 :: rest) = none := by
  simp [nextToken, isSpace, isIdentStart, isAlpha, isDigit]

/-- A text behind another is shorter. -/
theorem length_lt_of_dropWhile {sql rest : Bytes} {c : UInt8} (h : sql.dropWhile isSpace = c :: rest) :
    rest.length < sql.length := by
  have hle := (List.dropWhile_suffix (l := sql) isSpace).length_le
  rw [h, List.length_cons] at hle
  exact hle

/-- **A call of NextToken from itself has less text left**, except at a `--`. -/
theorem length_callsItself {sql text : Bytes} (h : activate sql = .callsItself text) :
    text.length < sql.length ↔ ¬ [45, 45] <+: sql := by
  have hactivated := h ▸ activated sql
  have hstart : [45, 45] <+: sql → sql.dropWhile isSpace = sql := by
    rintro ⟨behind, rfl⟩
    exact List.dropWhile_cons_of_neg (by decide)
  cases hactivated with
  | @comment rest hdrop =>
    constructor
    · intro hlt hp
      rw [hstart hp] at hdrop
      rw [hdrop] at hlt
      exact lt_irrefl _ hlt
    · intro hp
      have hsuffix : 45 :: 45 :: rest <:+ sql := hdrop ▸ List.dropWhile_suffix isSpace
      refine lt_of_le_of_ne hsuffix.length_le fun heq => hp ?_
      rw [← hsuffix.eq_of_length heq]
      exact ⟨rest, rfl⟩
  | @unknown c rest hdrop hc hnext =>
    refine iff_of_true (length_lt_of_dropWhile hdrop) fun hp => ?_
    rw [hstart hp] at hdrop
    obtain ⟨behind, rfl⟩ := hp
    obtain rfl : (45 : UInt8) = c := (List.cons.inj hdrop).1
    exact absurd hc (by decide)

/-- **NextToken comes to an end** where there is a next token, and with that token. -/
theorem returns_iff {sql rest : Bytes} {token : Token} :
    Returns sql token rest ↔ nextToken sql = some (token, rest) := by
  constructor
  · intro h
    induction h with
    | @returns sql rest token h =>
      cases h ▸ activated sql with
      | returns h => exact h
    | @calls sql text rest token h _ ih =>
      cases h ▸ activated sql with
      | comment hdrop => simp [nextToken_comment] at ih
      | unknown _ _ hnext => exact hnext.trans ih
  · intro h
    induction hn : sql.length using Nat.strong_induction_on generalizing sql with
    | _ n ih =>
      have hactivated := activated sql
      rcases hact : activate sql with ⟨t, r⟩ | text
      · rw [hact] at hactivated
        cases hactivated with
        | returns h' =>
          obtain ⟨rfl, rfl⟩ := Prod.mk.inj (Option.some.inj (h.symm.trans h'))
          exact .returns hact
      · rw [hact] at hactivated
        cases hactivated with
        | comment hdrop =>
          rw [← nextToken_dropWhile, hdrop, nextToken_comment] at h
          cases h
        | unknown hdrop _ hnext =>
          exact .calls hact (ih _ (hn ▸ length_lt_of_dropWhile hdrop) (hnext ▸ h) rfl)

/-- **Tokenize comes to an end** with the tokens of the text. -/
theorem tokenizeReturns_lex {sql rest : Bytes} {tokens : List Token} (h : TokenizeReturns sql tokens rest) :
    lex sql = some tokens := by
  induction h with
  | last h htype => exact lex_end (returns_iff.mp h) htype
  | next h htype _ ih =>
    rw [lex_cons (returns_iff.mp h) htype, ih]
    rfl

/-! ## Stops -/

/-- Where the lexer stops. -/
inductive Stop
  | endOfInput
  | comment
  | bang (behind : Bytes)
  deriving DecidableEq

/-- The first `--` or `!` without `=` outside string literals; the flag says whether the text begins inside
one. -/
def stopOf : Bool → Bytes → Stop
  | _, [] => .endOfInput
  | true, c :: rest => stopOf (c != 39) rest
  | false, c :: rest =>
    if c = 39 then stopOf true rest
    else if c = 45 ∧ rest.head? = some 45 then .comment
    else if c = 33 ∧ rest.head? ≠ some 61 then .bang rest
    else stopOf false rest

/-- The other characters. -/
def isPlain (c : UInt8) : Bool := c != 39 && c != 45 && c != 33

/-- A class without the three special characters. -/
theorem isPlain_of_class {p : UInt8 → Bool} (hspecial : p 39 = false ∧ p 45 = false ∧
    p 33 = false) {c : UInt8}
    (hc : p c = true) : isPlain c = true := by
  have hne : ∀ d, p d = false → c ≠ d := fun d hd heq => by simp [heq, hd] at hc
  simp [isPlain, hne 39 hspecial.1, hne 45 hspecial.2.1, hne 33 hspecial.2.2]

theorem isPlain_of_isIdentChar {c : UInt8} (hc : isIdentChar c = true) : isPlain c = true :=
  isPlain_of_class (by decide) hc

theorem stopOf_plain {c : UInt8} {rest : Bytes} (h : isPlain c = true) :
    stopOf false (c :: rest) = stopOf false rest := by
  simp only [isPlain, Bool.and_eq_true, bne_iff_ne] at h
  rw [stopOf, if_neg h.1.1, if_neg fun hc => h.1.2 hc.1, if_neg fun hc => h.2 hc.1]

/-- Plain characters make no difference. -/
theorem stopOf_dropWhile {p : UInt8 → Bool} (hp : ∀ c, p c = true → isPlain c = true) (sql : Bytes) :
    stopOf false (sql.dropWhile p) = stopOf false sql := by
  induction sql with
  | nil => rfl
  | cons c rest ih =>
    by_cases hc : p c = true
    · rw [List.dropWhile_cons_of_pos hc, ih, stopOf_plain (hp c hc)]
    · rw [List.dropWhile_cons_of_neg hc]

/-- Neither do numbers. -/
theorem stopOf_scanNumber (isFloat : Bool) (sql : Bytes) :
    stopOf false (scanNumber isFloat sql).2.2 = stopOf false sql := by
  induction sql generalizing isFloat with
  | nil => rfl
  | cons c rest ih =>
    unfold scanNumber
    split_ifs with hdigit hpoint
    · rw [stopOf_plain (isPlain_of_isIdentChar (by simp [isIdentChar, hdigit]))]
      exact ih isFloat
    · rw [stopOf_plain (hpoint.1 ▸ (by decide : isPlain 46 = true))]
      exact ih true
    · rfl

/-- A string literal ends at the next quote. -/
theorem stopOf_string (sql : Bytes) : stopOf true sql = stopOf false (sql.dropWhile (· ≠ 39)).tail := by
  induction sql with
  | nil => rfl
  | cons c rest ih =>
    by_cases hc : c = 39
    · subst hc
      rfl
    · rw [List.dropWhile_cons_of_pos (by simpa using hc), stopOf, bne_iff_ne.mpr hc, ih]

/-- What the next token says about the stop. -/
inductive StopsAs (sql : Bytes) : Option (Token × Bytes) → Prop
  | comment (h : stopOf false sql = .comment) : StopsAs sql none
  | endOfInput (h : stopOf false sql = .endOfInput) : StopsAs sql (some (endToken, []))
  | bang {rest : Bytes} (h : stopOf false sql = .bang rest) : StopsAs sql (some (endToken, rest))
  | goesOn {token : Token} {rest : Bytes} (htype : token.type ≠ .endOfInput)
      (h : stopOf false sql = stopOf false rest) : StopsAs sql (some (token, rest))

/-- A text that stops where another does. -/
theorem StopsAs.congr {sql sql' : Bytes} {next : Option (Token × Bytes)} (h : StopsAs sql next)
    (heq : stopOf false sql' = stopOf false sql) : StopsAs sql' next := by
  cases h with
  | comment h => exact .comment (heq.trans h)
  | endOfInput h => exact .endOfInput (heq.trans h)
  | bang h => exact .bang (heq.trans h)
  | goesOn htype h => exact .goesOn htype (heq.trans h)

/-- No keyword is the end of the input. -/
theorem type_readIdentifierOrKeyword (sql : Bytes) :
    (readIdentifierOrKeyword sql).1.type ≠ .endOfInput := by
  have hkeywords : ∀ entry ∈ keywords, entry.2 ≠ .endOfInput := by decide
  show (keywords.lookup (sql.takeWhile isIdentChar)).getD .identifier ≠ .endOfInput
  rcases hlookup : keywords.lookup (sql.takeWhile isIdentChar) with _ | type
  · exact nofun
  · obtain ⟨_, _, hsplit, -⟩ := List.lookup_eq_some_iff.mp hlookup
    exact hkeywords (_, type) (hsplit ▸ List.mem_append_right _ List.mem_cons_self)

/-- An operator of one or two characters. -/
theorem stopsAs_orEqual {c : UInt8} {one two : Token} (hc : isPlain c = true)
    (hone : one.type ≠ .endOfInput)
    (htwo : two.type ≠ .endOfInput) (rest : Bytes) : StopsAs (c :: rest) (some (orEqual one two rest)) := by
  unfold orEqual
  split
  · exact .goesOn htwo (by rw [stopOf_plain hc, stopOf_plain (by decide)])
  · exact .goesOn hone (stopOf_plain hc)

/-- A `!` ends the input unless a `=` is behind it. -/
theorem stopsAs_bang (rest : Bytes) :
    StopsAs (33 :: rest) (some (orEqual endToken ⟨.ne, [33, 61]⟩ rest)) := by
  unfold orEqual
  split
  · next rest => exact .goesOn nofun rfl
  · next hne =>
    refine .bang ?_
    have hhead : rest.head? ≠ some 61 := fun h => by
      obtain ⟨behind, hbehind⟩ := List.head?_eq_some_iff.mp h
      exact hne behind hbehind
    rw [stopOf, if_neg (by decide), if_neg (absurd ·.1 (by decide)), if_pos ⟨rfl, hhead⟩]

/-- Characters of the same code. -/
theorem eq_of_ofUInt8 {c : UInt8} {char : Char} {d : UInt8} (hchar : char = Char.ofUInt8 d)
    (h : Char.ofUInt8 c = char) : c = d := by
  have hval : (Char.ofUInt8 c).val = (Char.ofUInt8 d).val := congrArg Char.val (h.trans hchar)
  exact UInt8.toUInt32_inj.mp hval

/-- Operators and punctuation. -/
theorem stopsAs_operator? {c : UInt8} {rest : Bytes} {result : Token × Bytes} (hquote : c ≠ 39)
    (hminus : c ≠ 45)
    (h : operator? c rest = some result) : StopsAs (c :: rest) (some result) := by
  by_cases hbang : c = 33
  · subst hbang
    obtain rfl : orEqual endToken ⟨.ne, [33, 61]⟩ rest = result := Option.some.inj h
    exact stopsAs_bang rest
  · have hplain : isPlain c = true := by simp [isPlain, hquote, hminus, hbang]
    unfold operator? at h
    split at h
    case h_8 | h_9 =>
      rw [← h]
      apply stopsAs_orEqual hplain <;> exact nofun
    case h_10 hchar => exact absurd (eq_of_ofUInt8 rfl hchar) hbang
    case h_11 => cases h
    all_goals exact h ▸ .goesOn nofun (stopOf_plain hplain)

/-- A character that is none of the operators and is passed over. -/
theorem isPlain_of_operator? {c : UInt8} {rest : Bytes} (hquote : c ≠ 39) (hminus : c ≠ 45)
    (h : operator? c rest = none) : isPlain c = true := by
  have hbang : c ≠ 33 := by
    rintro rfl
    have hsome : operator? 33 rest = some (orEqual endToken ⟨.ne, [33, 61]⟩ rest) := rfl
    rw [hsome] at h
    cases h
  simp [isPlain, hquote, hminus, hbang]

/-- **The next token says where the lexer stops**, or nothing of it. -/
theorem stopsAs_nextToken (sql : Bytes) : StopsAs sql (nextToken sql) := by
  induction sql with
  | nil => exact .endOfInput rfl
  | cons c rest ih =>
    unfold nextToken
    split_ifs with hspace hstart hdigit hquote hminus hcomment
    · exact ih.congr (stopOf_plain (isPlain_of_class (by decide) hspace))
    · exact .goesOn (type_readIdentifierOrKeyword _)
        (stopOf_dropWhile (fun c => isPlain_of_isIdentChar) _).symm
    · refine .goesOn ?_ (stopOf_scanNumber false _).symm
      show (if (scanNumber false (c :: rest)).2.1 then TokenType.float else .integer) ≠ .endOfInput
      split_ifs <;> decide
    · subst hquote
      have htype : TokenType.string ≠ .endOfInput := by decide
      exact .goesOn htype (stopOf_string rest)
    · exact .comment (by rw [stopOf, if_neg hquote, if_pos ⟨hminus, hcomment⟩])
    · have htype : TokenType.minus ≠ .endOfInput := by decide
      refine .goesOn htype ?_
      rw [stopOf, if_neg hquote, if_neg fun h => hcomment h.2, if_neg]
      rintro ⟨rfl, -⟩
      exact absurd hminus (by decide)
    · rcases hop : operator? c rest with _ | result
      · exact ih.congr (stopOf_plain (isPlain_of_operator? hquote hminus hop))
      · exact stopsAs_operator? hquote hminus hop

/-! ## Coming to an end -/

/-- The characters that NextToken passes over. -/
def isSkipped (c : UInt8) : Bool := isSpace c || isUnknown c

/-- **There is a next token** unless the first character that is not passed over begins a `--`. -/
theorem nextToken_eq_none_iff (sql : Bytes) : nextToken sql = none ↔
    [45, 45] <+: sql.dropWhile isSkipped := by
  induction sql with
  | nil => exact iff_of_false (Option.some_ne_none _) fun h => absurd (List.prefix_nil.mp h) (List.cons_ne_nil _ _)
  | cons c rest ih =>
    -- a character that begins a token
    have hbegins : isSkipped c = false → c ≠ 45 → ¬ [45, 45] <+: (c :: rest).dropWhile isSkipped := by
      intro hskip hne
      rw [List.dropWhile_cons_of_neg (Bool.eq_false_iff.mp hskip)]
      exact fun h => hne (List.cons_prefix_cons.mp h).1.symm
    unfold nextToken
    split_ifs with hspace hstart hdigit hquote hminus hcomment
    · rw [List.dropWhile_cons_of_pos (by simp [isSkipped, hspace]), ih]
    · refine iff_of_false not_false (hbegins (by simp [isSkipped, isUnknown, hspace, hstart]) ?_)
      rintro rfl
      exact absurd hstart (by decide)
    · refine iff_of_false not_false (hbegins (by simp [isSkipped, isUnknown, hspace, hdigit]) ?_)
      rintro rfl
      exact absurd hdigit (by decide)
    · subst hquote
      exact iff_of_false not_false (hbegins (by decide) (by decide))
    · obtain ⟨behind, rfl⟩ := List.head?_eq_some_iff.mp hcomment
      subst hminus
      exact iff_of_true rfl ⟨behind, rfl⟩
    · subst hminus
      rw [List.dropWhile_cons_of_neg (by decide)]
      refine iff_of_false not_false fun h => hcomment ?_
      obtain ⟨behind, hbehind⟩ := (List.cons_prefix_cons.mp h).2
      rw [← hbehind]
      rfl
    · rcases hop : operator? c rest with _ | result
      · have hskip : isSkipped c = true := by
          simp [isSkipped, isUnknown, hstart, hdigit, hquote, hminus, operator?_eq_none hop []]
        rw [List.dropWhile_cons_of_pos hskip]
        exact ih
      · have hsome : (operator? c []).isNone = false := by
          rw [← Bool.not_eq_true, Option.isNone_iff_eq_none]
          exact fun hnone => by simp [operator?_eq_none hnone rest] at hop
        exact iff_of_false (Option.some_ne_none _) (hbegins (by simp [isSkipped, isUnknown, hspace, hsome]) hminus)

/-- Tokenize comes to an end where the lexer does not stop at a `--`. -/
theorem exists_tokenizeReturns {sql : Bytes} (h : stopOf false sql ≠ .comment) :
    ∃ tokens rest, TokenizeReturns sql tokens rest := by
  induction hn : sql.length using Nat.strong_induction_on generalizing sql with
  | _ n ih =>
    have hstops := stopsAs_nextToken sql
    rcases hnext : nextToken sql with _ | ⟨token, rest⟩
    · rw [hnext] at hstops
      cases hstops with
      | comment hc => exact absurd hc h
    · by_cases htype : token.type = .endOfInput
      · exact ⟨_, _, .last (returns_iff.mpr hnext) htype⟩
      · rw [hnext] at hstops
        have hrest : stopOf false rest ≠ .comment := by
          cases hstops with
          | endOfInput | bang => exact absurd rfl htype
          | goesOn _ heq => exact heq ▸ h
        obtain ⟨tokens, left, hrun⟩ := ih _ (hn ▸ length_nextToken hnext htype) hrest rfl
        exact ⟨_, _, .next (returns_iff.mpr hnext) htype hrun⟩

/-- Where Tokenize comes to an end: at the end of the input, or behind the `!` that it stops at. -/
theorem TokenizeReturns.stop {sql left : Bytes} {tokens : List Token}
    (h : TokenizeReturns sql tokens left) :
    stopOf false sql = .endOfInput ∧ left = [] ∨ stopOf false sql = .bang left := by
  induction h with
  | @last sql rest token h htype =>
    have hstops := stopsAs_nextToken sql
    rw [returns_iff.mp h] at hstops
    cases hstops with
    | endOfInput hs => exact .inl ⟨hs, rfl⟩
    | bang hs => exact .inr hs
    | goesOn hne => exact absurd htype hne
  | @next sql rest left token tokens h htype _ ih =>
    have hstops := stopsAs_nextToken sql
    rw [returns_iff.mp h] at hstops
    cases hstops with
    | endOfInput | bang => exact absurd rfl htype
    | goesOn _ hs => rwa [hs]

/-- **Termination of the lexer.** On a text shorter than `2 ^ 32` bytes, which the 32-bit position can go through,
NextToken comes to an end at a place of the input exactly where the next character that it does not pass over is not
the first of a `--`; Tokenize does exactly where no `--` is outside the string literals in front of a `!` without
`=`. A call of NextToken from itself has less input left exactly where it is not made at a `--`. -/
theorem lexer_terminates_iff : ∀ sql : Bytes, sql.length < 2 ^ 32 →
    (∀ position, (∃ token rest, Returns (sql.drop position) token rest) ↔
      ¬ [45, 45] <+: (sql.drop position).dropWhile isSkipped) ∧
    ((∃ tokens rest, TokenizeReturns sql tokens rest) ↔ stopOf false sql ≠ .comment) ∧
    ∀ position text, activate (sql.drop position) = .callsItself text →
      (text.length < (sql.drop position).length ↔ ¬ [45, 45] <+: sql.drop position) := by
  refine fun sql _ => ⟨fun position => ?_, ⟨?_, exists_tokenizeReturns⟩, fun position text h => length_callsItself h⟩
  · rw [← nextToken_eq_none_iff, ← ne_eq, Option.ne_none_iff_exists']
    simp only [returns_iff, Prod.exists]
  · rintro ⟨tokens, rest, hrun⟩
    rcases hrun.stop with ⟨hstop, -⟩ | hstop <;> simp [hstop]

/-- `a - b` comes to its end. -/
theorem lexer_terminates_iff_minus :
    ∃ tokens rest, TokenizeReturns [97, 32, 45, 32, 98] tokens rest :=
  (lexer_terminates_iff [97, 32, 45, 32, 98] (by decide)).2.1.mpr (by decide)

/-- At a comment NextToken calls itself with the same text, and neither it nor Tokenize comes to an end. -/
theorem comment_not_returns :
    activate [45, 45] = .callsItself [45, 45] ∧ (¬ ∃ token rest, Returns [45, 45] token rest) ∧
      ¬ ∃ tokens rest, TokenizeReturns [45, 45] tokens rest := by
  refine ⟨by decide, ?_, ?_⟩
  · rintro ⟨token, rest, h⟩
    have hnext := returns_iff.mp h
    rw [nextToken_comment] at hnext
    cases hnext
  · rintro ⟨tokens, rest, h⟩
    rcases h.stop with ⟨hstop, -⟩ | hstop <;> simp [stopOf] at hstop

/-- **The end of the input.** On a text shorter than `2 ^ 32` bytes, a run of Tokenize gives one END token, the last,
and leaves nothing of the input, exactly where nothing is behind the first `!` without `=` outside the string
literals. -/
theorem lexer_consumes_iff : ∀ sql : Bytes, sql.length < 2 ^ 32 → ∀ (left : Bytes) (tokens : List Token),
    TokenizeReturns sql tokens left →
      (EndsOnce tokens ∧ left = [] ↔ ∀ behind, stopOf false sql = .bang behind → behind = []) := by
  intro sql _ left tokens h
  rw [and_iff_right (endsOnce_lex (tokenizeReturns_lex h))]
  rcases h.stop with ⟨hstop, hleft⟩ | hstop
  · exact iff_of_true hleft fun behind hbang => by simp [hstop] at hbang
  · constructor
    · intro hleft behind hbang
      exact (Stop.bang.inj (hbang.symm.trans hstop)).trans hleft
    · exact fun h => h left hstop

/-- `a ! b`: the tokens are `a` and END, and ` b` is left. -/
theorem bang_leaves_input :
    TokenizeReturns [97, 32, 33, 32, 98] [⟨.identifier, [97]⟩, endToken] [32, 98] ∧
      ¬ ∀ (sql left : Bytes) (tokens : List Token), TokenizeReturns sql tokens left → EndsOnce tokens ∧
        left = [] := by
  have hrun : TokenizeReturns [97, 32, 33, 32, 98] [⟨.identifier, [97]⟩, endToken] [32, 98] :=
    .next (.returns rfl) nofun (.last (.returns rfl) rfl)
  exact ⟨hrun, fun h => List.cons_ne_nil _ _ (h _ _ _ hrun).2⟩

/-- `a !`: nothing is behind the `!`. -/
theorem lexer_consumes_iff_last : EndsOnce [⟨.identifier, [97]⟩, endToken] ∧ ([] : Bytes) = [] ↔
    ∀ behind, stopOf false [97, 32, 33] = .bang behind → behind = [] :=
  lexer_consumes_iff [97, 32, 33] (by decide) [] _ (.next (.returns rfl) nofun (.last (.returns rfl) rfl))

end Lexer

end SimpleOlap

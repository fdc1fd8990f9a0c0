import Mathlib.Data.List.TakeWhile
import MethodRoles.Json.Printer
import MethodRoles.Json.Token

/-!
# Tokens of printed values

A printed value is cut into the tokens of the value, whatever the layout puts between them. A word
or a number ends only where the next character is no part of it, so that what is said of a printed
value is said in front of a rest that ends words.
-/
namespace MethodRoles

namespace Data.Value

/-- Numbers are natural and nothing is void. -/
inductive Plain : Value → Prop where
  | null : Plain .null
  | bool (b : Bool) : Plain (.bool b)
  | nat (n : Nat) : Plain (.nat n)
  | str (s : String) : Plain (.str s)
  | arr {items : List Value} (h : ∀ v ∈ items, Plain v) : Plain (.arr items)
  | obj {members : List (String × Value)} (h : ∀ m ∈ members, Plain m.2) : Plain (.obj members)

end Data.Value

namespace Json

open Data

/-! ## Strings -/

theorem hexValue?_hexDigit : ∀ d < 16, Text.hexValue? (hexDigit d) = some d := by decide

/-- An escaped character is read as the character itself. -/
theorem scanFrom_escape (c : Char) (codes : List Nat) (done : List Token) (cs : List Char) :
    scanFrom (.string codes) done (escape c ++ cs) =
      scanFrom (.string (c.toNat :: codes)) done cs := by
  unfold escape
  split
  · next h => rw [beq_iff_eq] at h; subst h; rfl
  split
  · next h => rw [beq_iff_eq] at h; subst h; rfl
  split
  · next h => rw [beq_iff_eq] at h; subst h; rfl
  split
  · next h => rw [beq_iff_eq] at h; subst h; rfl
  split
  · next h => rw [beq_iff_eq] at h; subst h; rfl
  split
  · next h => rw [beq_iff_eq] at h; subst h; rfl
  split
  · next h => rw [beq_iff_eq] at h; subst h; rfl
  split
  · -- four hexadecimal digits, the first two of which are zero
    next h =>
    have hhigh := hexValue?_hexDigit (c.toNat / 16) (by omega)
    have hlow := hexValue?_hexDigit (c.toNat % 16) (by omega)
    have hzero : Text.hexValue? '0' = some 0 := rfl
    have hcode : c.toNat / 16 * 16 + c.toNat % 16 = c.toNat := Nat.div_add_mod' c.toNat 16
    simp [scanFrom, scanChar, hzero, hhigh, hlow, hcode]
  · next hquote hslash _ _ _ _ _ h =>
    simp [scanFrom, scanChar, hquote, hslash, h]

/-- The codes of a text, in reverse. -/
def codesOf (s : String) : List Nat := s.toList.reverse.map Char.toNat

theorem scanFrom_flatMap_escape (text : List Char) (codes : List Nat) (done : List Token)
    (cs : List Char) :
    scanFrom (.string codes) done (text.flatMap escape ++ cs) =
      scanFrom (.string (text.reverse.map Char.toNat ++ codes)) done cs := by
  induction text generalizing codes with
  | nil => rfl
  | cons c text ih =>
    rw [List.flatMap_cons, List.append_assoc, scanFrom_escape, ih]
    simp

theorem scanFrom_quote (s : String) (done : List Token) (cs : List Char) :
    scanFrom .between done (quote s ++ cs) = scanFrom .between (.text (codesOf s) :: done) cs := by
  have hopen : ∀ rest, scanFrom .between done ('"' :: rest) = scanFrom (.string []) done rest :=
    fun _ => rfl
  have hclose : ∀ codes, scanFrom (.string codes) done ('"' :: cs) =
      scanFrom .between (.text codes :: done) cs := fun _ => rfl
  simp only [quote, List.cons_append, List.append_assoc, List.nil_append]
  rw [hopen, scanFrom_flatMap_escape, hclose, List.append_nil, codesOf]

theorem not_surrogate (c : Char) :
    isLowSurrogate c.toNat = false ∧ isHighSurrogate c.toNat = false := by
  have hv : c.toNat < 0xD800 ∨ 0xDFFF < c.toNat ∧ c.toNat < 0x110000 := c.valid
  simp only [isLowSurrogate, isHighSurrogate, Bool.and_eq_false_iff, decide_eq_false_iff_not]
  omega

theorem joinCodes_map_toNat (text done : List Char) :
    joinCodes done (text.map Char.toNat) = some (text.reverse ++ done) := by
  induction text generalizing done with
  | nil => rfl
  | cons c text ih =>
    obtain ⟨hlow, hhigh⟩ := not_surrogate c
    rw [List.map_cons, joinCodes.eq_def]
    simp [hlow, hhigh, ih]

@[simp] theorem textOf?_codesOf (s : String) : textOf? (codesOf s) = some s := by
  rw [textOf?, codesOf, joinCodes_map_toNat]
  simp

/-! ## Words and numbers -/

/-- A word that comes before `rest` is at its end. -/
def EndsWord (rest : List Char) : Prop := ∀ c ∈ rest.head?, isWordChar c = false

theorem endsWord_nil : EndsWord [] := by simp [EndsWord]

theorem endsWord_cons {c : Char} (h : isWordChar c = false) (cs : List Char) :
    EndsWord (c :: cs) := by
  simpa [EndsWord] using h

theorem scanFrom_word_append {word : List Char} (hword : ∀ c ∈ word, isWordChar c = true)
    (chars : List Char) (done : List Token) (cs : List Char) :
    scanFrom (.word chars) done (word ++ cs) =
      scanFrom (.word (word.reverse ++ chars)) done cs := by
  induction word generalizing chars with
  | nil => rfl
  | cons c word ih =>
    have hc : isWordChar c = true := hword c (by simp)
    rw [List.cons_append, scanFrom, scanChar, if_pos hc]
    simp only
    rw [ih (fun d hd => hword d (by simp [hd]))]
    simp

/-- The first character that is no part of a word closes the word. -/
theorem scanFrom_word_end {chars : List Char} {v : Value} (hv : scalar? chars.reverse = some v)
    (done : List Token) {cs : List Char} (hcs : EndsWord cs) :
    scanFrom (.word chars) done cs = scanFrom .between (.scalar v :: done) cs := by
  cases cs with
  | nil => simp [scanFrom, scanEnd, hv]
  | cons c cs =>
    have hc : isWordChar c = false := hcs c (by simp)
    rw [scanFrom, scanFrom, scanChar, scanChar, hc, hv]
    rfl

/-- A character of words is none of those that have a meaning of their own. -/
theorem scanBetween_wordChar {c : Char} (h : isWordChar c = true) (done : List Token) :
    scanBetween done c = some (.word [c], done) := by
  have hne : ∀ d, isWordChar d = false → c ≠ d := by
    rintro d hd rfl
    rw [h] at hd
    cases hd
  have hspace := hne ' ' (by decide)
  have htab := hne '\t' (by decide)
  have hline := hne '\n' (by decide)
  have hreturn := hne '\r' (by decide)
  unfold scanBetween
  rw [if_neg (by simp [hspace, htab, hline, hreturn])]
  split
  · exact absurd rfl (hne _ (by decide))
  · exact absurd rfl (hne _ (by decide))
  · exact absurd rfl (hne _ (by decide))
  · exact absurd rfl (hne _ (by decide))
  · exact absurd rfl (hne _ (by decide))
  · exact absurd rfl (hne _ (by decide))
  · exact absurd rfl (hne _ (by decide))
  · rw [if_pos h]

theorem scanFrom_scalar {word : List Char} {v : Value} (hne : word ≠ [])
    (hword : ∀ c ∈ word, isWordChar c = true) (hv : scalar? word = some v) (done : List Token)
    {cs : List Char} (hcs : EndsWord cs) :
    scanFrom .between done (word ++ cs) = scanFrom .between (.scalar v :: done) cs := by
  cases word with
  | nil => exact absurd rfl hne
  | cons c word =>
    rw [List.cons_append, scanFrom, scanChar, scanBetween_wordChar (hword c (by simp))]
    simp only
    rw [scanFrom_word_append (fun d hd => hword d (by simp [hd]))]
    exact scanFrom_word_end (by simpa using hv) done hcs

theorem toDigits_head {n : Nat} (h : 0 < n) :
    ∃ c cs, Nat.toDigits 10 n = c :: cs ∧ c ≠ '0' := by
  induction n using Nat.strongRecOn with
  | ind n ih =>
    rw [Nat.toDigits_eq_if (by decide)]
    split
    · refine ⟨n.digitChar, [], rfl, ?_⟩
      rw [ne_eq, Nat.digitChar_eq_zero]
      omega
    · obtain ⟨c, cs, hn, hc⟩ := ih (n / 10) (by omega) (by omega)
      exact ⟨c, cs ++ [(n % 10).digitChar], by rw [hn, List.cons_append], hc⟩

theorem isDigit_of_mem_toDigits {n : Nat} {c : Char} (h : c ∈ Nat.toDigits 10 n) :
    c.isDigit = true :=
  Nat.isDigit_of_mem_toDigits (by decide) (by decide) h

theorem isNumber_toDigits (n : Nat) : isNumber (Nat.toDigits 10 n) = true := by
  have hall : ∀ c ∈ Nat.toDigits 10 n, c.isDigit = true := fun c => isDigit_of_mem_toDigits
  by_cases h : 0 < n
  · obtain ⟨c, cs, hn, hc⟩ := toDigits_head h
    rw [hn] at hall ⊢
    have hdigit : c.isDigit = true := hall c (by simp)
    have hminus : c ≠ '-' := by
      rintro rfl
      exact absurd hdigit (by decide)
    have hrest : cs.dropWhile Char.isDigit = [] := by
      rw [List.dropWhile_eq_nil_iff]
      exact fun d hd => hall d (by simp [hd])
    rw [isNumber.eq_def]
    simp [hminus, dropWhole?, hc, dropDigits?, hdigit, hrest, dropFraction?, dropExponent?]
  · have : n = 0 := by omega
    subst this
    rfl

theorem scalar?_toDigits (n : Nat) : scalar? (Nat.toDigits 10 n) = some (.nat n) := by
  have hall : (Nat.toDigits 10 n).all Char.isDigit = true :=
    List.all_eq_true.2 fun c => isDigit_of_mem_toDigits
  have hword : ∀ {word : List Char}, word.all Char.isDigit = false → Nat.toDigits 10 n ≠ word := by
    rintro word hw rfl
    rw [hall] at hw
    cases hw
  rw [scalar?, if_neg (hword (by decide)), if_neg (hword (by decide)), if_neg (hword (by decide)),
    if_pos (isNumber_toDigits n), if_pos hall, Nat.ofDigitChars_ten_toDigits]

theorem scanFrom_toDigits (n : Nat) (done : List Token) {cs : List Char} (hcs : EndsWord cs) :
    scanFrom .between done (Nat.toDigits 10 n ++ cs) =
      scanFrom .between (.scalar (.nat n) :: done) cs := by
  refine scanFrom_scalar Nat.toDigits_ne_nil ?_ (scalar?_toDigits n) done hcs
  intro c hc
  simp [isWordChar, Char.isAlphanum, isDigit_of_mem_toDigits hc]

/-! ## Layouts -/

/-- The characters that may stand between tokens. -/
def isGap (c : Char) : Bool := c == ' ' || c == '\t' || c == '\n' || c == '\r'

theorem scanFrom_gap {gap : List Char} (h : ∀ c ∈ gap, isGap c = true) (done : List Token)
    (cs : List Char) : scanFrom .between done (gap ++ cs) = scanFrom .between done cs := by
  induction gap with
  | nil => rfl
  | cons c gap ih =>
    have hc : isGap c = true := h c (by simp)
    rw [isGap] at hc
    rw [List.cons_append, scanFrom, scanChar, scanBetween.eq_def, if_pos hc]
    exact ih fun d hd => h d (by simp [hd])

theorem endsWord_gap {gap : List Char} (h : ∀ c ∈ gap, isGap c = true) {cs : List Char}
    (hcs : EndsWord cs) : EndsWord (gap ++ cs) := by
  cases gap with
  | nil => exact hcs
  | cons c gap =>
    have hc : isGap c = true := h c (by simp)
    refine endsWord_cons ?_ _
    simp only [isGap, Bool.or_eq_true, beq_iff_eq] at hc
    rcases hc with ((rfl | rfl) | rfl) | rfl <;> decide

/-- Only blanks are put between tokens, apart from the colon. -/
structure Layout.Proper (layout : Layout) : Prop where
  gap : ∀ level, ∀ c ∈ layout.gap level, isGap c = true
  colon : ∃ blanks, layout.colon = ':' :: blanks ∧ ∀ c ∈ blanks, isGap c = true

theorem Layout.pretty_proper : Layout.pretty.Proper where
  gap level c hc := by
    simp only [pretty, List.mem_cons, List.mem_replicate] at hc
    rcases hc with rfl | ⟨-, rfl⟩ <;> decide
  colon := ⟨[' '], rfl, List.forall_mem_singleton.2 rfl⟩

variable {layout : Layout}

theorem Layout.Proper.scanFrom_colon (h : layout.Proper) (done : List Token) (cs : List Char) :
    scanFrom .between done (layout.colon ++ cs) = scanFrom .between (.colon :: done) cs := by
  obtain ⟨blanks, hc, hb⟩ := h.colon
  have hcolon : ∀ rest, scanFrom .between done (':' :: rest) =
      scanFrom .between (.colon :: done) rest :=
    fun _ => rfl
  rw [hc, List.cons_append, hcolon, scanFrom_gap hb]

/-! ## Values -/

mutual

/-- The tokens of a value. -/
def tokensOf : Value → List Token
  | .str s => [.text (codesOf s)]
  | .arr [] => [.openBracket, .closeBracket]
  | .arr (v :: items) => .openBracket :: (tokensOf v ++ itemTokens items ++ [.closeBracket])
  | .obj [] => [.openBrace, .closeBrace]
  | .obj ((key, v) :: members) =>
    .openBrace :: .text (codesOf key) :: .colon ::
      (tokensOf v ++ memberTokens members ++ [.closeBrace])
  | v => [.scalar v]

/-- The tokens of the items after the first one. -/
def itemTokens : List Value → List Token
  | [] => []
  | v :: items => .comma :: (tokensOf v ++ itemTokens items)

/-- The tokens of the members after the first one. -/
def memberTokens : List (String × Value) → List Token
  | [] => []
  | (key, v) :: members =>
    .comma :: .text (codesOf key) :: .colon :: (tokensOf v ++ memberTokens members)

end

/-- In every place a value is printed as a text that is cut into its tokens. -/
def Lexes (layout : Layout) (v : Value) : Prop :=
  ∀ level done rest, EndsWord rest →
    scanFrom .between done (render layout level v ++ rest) =
      scanFrom .between ((tokensOf v).reverse ++ done) rest

theorem endsWord_renderItems (layout : Layout) (level : Nat) (items : List Value) {rest : List Char}
    (hrest : EndsWord rest) : EndsWord (renderItems layout level items ++ rest) := by
  cases items with
  | nil => rwa [renderItems]
  | cons v items =>
    rw [renderItems]
    exact endsWord_cons (by decide) _

theorem endsWord_renderMembers (layout : Layout) (level : Nat) (members : List (String × Value))
    {rest : List Char} (hrest : EndsWord rest) :
    EndsWord (renderMembers layout level members ++ rest) := by
  cases members with
  | nil => rwa [renderMembers]
  | cons m members =>
    rw [renderMembers]
    exact endsWord_cons (by decide) _

theorem scanFrom_renderItems (hl : layout.Proper) (level : Nat) {items : List Value}
    (h : ∀ v ∈ items, Lexes layout v) (done : List Token) {rest : List Char}
    (hrest : EndsWord rest) :
    scanFrom .between done (renderItems layout level items ++ rest) =
      scanFrom .between ((itemTokens items).reverse ++ done) rest := by
  induction items generalizing done with
  | nil => simp [renderItems, itemTokens]
  | cons v items ih =>
    have hcomma : ∀ cs, scanFrom .between done (',' :: cs) =
        scanFrom .between (.comma :: done) cs :=
      fun _ => rfl
    have hitems := endsWord_renderItems layout level items hrest
    simp only [renderItems, itemTokens, List.cons_append, List.append_assoc]
    rw [hcomma, scanFrom_gap (hl.gap level), h v (by simp) level _ _ hitems,
      ih (fun w hw => h w (by simp [hw]))]
    simp

theorem scanFrom_renderMembers (hl : layout.Proper) (level : Nat) {members : List (String × Value)}
    (h : ∀ m ∈ members, Lexes layout m.2) (done : List Token) {rest : List Char}
    (hrest : EndsWord rest) :
    scanFrom .between done (renderMembers layout level members ++ rest) =
      scanFrom .between ((memberTokens members).reverse ++ done) rest := by
  induction members generalizing done with
  | nil => simp [renderMembers, memberTokens]
  | cons m members ih =>
    obtain ⟨key, v⟩ := m
    have hcomma : ∀ cs, scanFrom .between done (',' :: cs) =
        scanFrom .between (.comma :: done) cs :=
      fun _ => rfl
    have hmembers := endsWord_renderMembers layout level members hrest
    simp only [renderMembers, memberTokens, List.cons_append, List.append_assoc]
    rw [hcomma, scanFrom_gap (hl.gap level), scanFrom_quote, hl.scanFrom_colon,
      h (key, v) (by simp) level _ _ hmembers, ih (fun w hw => h w (by simp [hw]))]
    simp

theorem lexes_of_plain (hl : layout.Proper) {v : Value} (hv : v.Plain) : Lexes layout v := by
  induction hv with
  | null =>
    intro level done rest hrest
    rw [render]
    exact scanFrom_scalar (by simp) (List.all_eq_true.1 rfl) rfl done hrest
  | bool b =>
    intro level done rest hrest
    cases b <;> rw [render] <;> exact scanFrom_scalar (by simp) (List.all_eq_true.1 rfl) rfl done
      hrest
  | nat n =>
    intro level done rest hrest
    exact scanFrom_toDigits n done hrest
  | str s =>
    intro level done rest hrest
    exact scanFrom_quote s done rest
  | @arr items h ih =>
    intro level done rest hrest
    have hopen : ∀ cs, scanFrom .between done ('[' :: cs) =
        scanFrom .between (.openBracket :: done) cs :=
      fun _ => rfl
    have hclose : ∀ done, scanFrom .between done (']' :: rest) =
        scanFrom .between (.closeBracket :: done) rest := fun _ => rfl
    cases items with
    | nil => rfl
    | cons v items =>
      have hend : EndsWord (layout.gap level ++ ']' :: rest) :=
        endsWord_gap (hl.gap level) (endsWord_cons (by decide) rest)
      simp only [render, tokensOf, List.cons_append, List.append_assoc, List.nil_append]
      rw [hopen, scanFrom_gap (hl.gap _), ih v (by simp) _ _ _ (endsWord_renderItems _ _ _ hend),
        scanFrom_renderItems hl _ (fun w hw => ih w (by simp [hw])) _ hend, scanFrom_gap (hl.gap _),
        hclose]
      simp
  | @obj members h ih =>
    intro level done rest hrest
    have hopen : ∀ cs, scanFrom .between done ('{' :: cs) =
        scanFrom .between (.openBrace :: done) cs :=
      fun _ => rfl
    have hclose : ∀ done, scanFrom .between done ('}' :: rest) =
        scanFrom .between (.closeBrace :: done) rest := fun _ => rfl
    cases members with
    | nil => rfl
    | cons m members =>
      obtain ⟨key, v⟩ := m
      have hend : EndsWord (layout.gap level ++ '}' :: rest) :=
        endsWord_gap (hl.gap level) (endsWord_cons (by decide) rest)
      simp only [render, tokensOf, List.cons_append, List.append_assoc, List.nil_append]
      rw [hopen, scanFrom_gap (hl.gap _), scanFrom_quote, hl.scanFrom_colon,
        ih (key, v) (by simp) _ _ _ (endsWord_renderMembers _ _ _ hend),
        scanFrom_renderMembers hl _ (fun w hw => ih w (by simp [hw])) _ hend,
        scanFrom_gap (hl.gap _), hclose]
      simp

theorem tokens?_render (hl : layout.Proper) {v : Value} (hv : v.Plain) (level : Nat) :
    tokens? (render layout level v) = some (tokensOf v) := by
  have h := lexes_of_plain hl hv level [] [] endsWord_nil
  rw [List.append_nil] at h
  rw [tokens?, h]
  simp [scanFrom, scanEnd]

end Json

end MethodRoles

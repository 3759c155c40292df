import Meowbot.Basic

set_option relaxedAutoImplicit false
set_option autoImplicit false

/-!
# Hangul (`hangul_impl.c`)

A syllable has an initial consonant, a vowel, and possibly a final consonant. Its code point is
computed from the places of the three in their tables, and the three are found again by division.
Consonants and vowels that are made of others are joined by tables, for the letters of today and for
all letters. Code points are numbers, and zero stands for no letter.

## Main definitions

* `Meowbot.hangulJoin`, `Meowbot.hangulSplit` — syllables.
* `Meowbot.hangulMergeConsonant`, `Meowbot.hangulMergeVowel`, `Meowbot.hangulMergeAllconsonant`,
  `Meowbot.hangulMergeAllvowel` — the tables of compound letters.
* `Meowbot.basicJamo` — the basic letters of a syllable or a letter.

## Main results

* `Meowbot.hangulJoin_ne_zero_iff` — what makes a syllable.
* `Meowbot.basicJamo_join` — a syllable has the basic letters of its parts.
-/

namespace Meowbot

/-! ## Letters -/

/-- `hangul_is_consonant` -/
def hangulIsConsonant (c : ℕ) : Bool := c ≥ 0x3131 && c ≤ 0x314e

/-- `hangul_is_vowel` -/
def hangulIsVowel (c : ℕ) : Bool := c ≥ 0x314f && c ≤ 0x3163

/-- `hangul_is_choseong_jamo` -/
def hangulIsChoseongJamo (c : ℕ) : Bool :=
  c == 0x3131 || c == 0x3132 || c == 0x3134 || (c ≥ 0x3137 && c ≤ 0x3139) ||
    (c ≥ 0x3141 && c ≤ 0x3143) || (c ≥ 0x3145 && c ≤ 0x314e)

/-- `hangul_is_jongseong_jamo` -/
def hangulIsJongseongJamo (c : ℕ) : Bool :=
  (c ≥ 0x3131 && c ≤ 0x3137) || (c ≥ 0x3139 && c ≤ 0x3142) || (c ≥ 0x3144 && c ≤ 0x3148) ||
    (c ≥ 0x314a && c ≤ 0x314e)

/-- The consonants of today. -/
lemma hangulIsConsonant_iff {c : ℕ} : hangulIsConsonant c ↔ 0x3131 ≤ c ∧ c ≤ 0x314e := by
  simp [hangulIsConsonant]

/-- The vowels of today. -/
lemma hangulIsVowel_iff {c : ℕ} : hangulIsVowel c ↔ 0x314f ≤ c ∧ c ≤ 0x3163 := by
  simp [hangulIsVowel]

/-- An initial consonant is a consonant. -/
lemma hangulIsConsonant_of_choseong {c : ℕ} (h : hangulIsChoseongJamo c) : hangulIsConsonant c := by
  simp only [hangulIsChoseongJamo, ge_iff_le, Bool.or_eq_true, Bool.and_eq_true, beq_iff_eq,
    decide_eq_true_eq] at h
  exact hangulIsConsonant_iff.mpr (by omega)

/-- A final consonant is a consonant. -/
lemma hangulIsConsonant_of_jongseong {c : ℕ} (h : hangulIsJongseongJamo c) :
    hangulIsConsonant c := by
  simp only [hangulIsJongseongJamo, ge_iff_le, Bool.or_eq_true, Bool.and_eq_true,
    decide_eq_true_eq] at h
  exact hangulIsConsonant_iff.mpr (by omega)

/-! ## Syllables -/

/-- `jamo_table`: the place of a letter, counted from one, among the initial consonants, the vowels
and the final consonants, for the letters from `0x3131` on. -/
def jamoTable : List (ℕ × ℕ × ℕ) :=
  [(1, 0, 1), (2, 0, 2), (0, 0, 3), (3, 0, 4), (0, 0, 5), (0, 0, 6), (4, 0, 7), (5, 0, 0),
    (6, 0, 8), (0, 0, 9), (0, 0, 10), (0, 0, 11), (0, 0, 12), (0, 0, 13), (0, 0, 14), (0, 0, 15),
    (7, 0, 16), (8, 0, 17), (9, 0, 0), (0, 0, 18), (10, 0, 19), (11, 0, 20), (12, 0, 21),
    (13, 0, 22), (14, 0, 0), (15, 0, 23), (16, 0, 24), (17, 0, 25), (18, 0, 26), (19, 0, 27),
    (0, 1, 0), (0, 2, 0), (0, 3, 0), (0, 4, 0), (0, 5, 0), (0, 6, 0), (0, 7, 0), (0, 8, 0),
    (0, 9, 0), (0, 10, 0), (0, 11, 0), (0, 12, 0), (0, 13, 0), (0, 14, 0), (0, 15, 0), (0, 16, 0),
    (0, 17, 0), (0, 18, 0), (0, 19, 0), (0, 20, 0), (0, 21, 0)]

/-- The row of `jamo_table` for a letter. -/
def jamoRow (c : ℕ) : ℕ × ℕ × ℕ := jamoTable.getD (c - 0x3131) (0, 0, 0)

/-- The end of `hangul_join`, with the places of the three letters. -/
def joinPlaces (lead vowel tail : ℕ) : ℕ :=
  if lead ≠ 0 ∧ vowel ≠ 0 then tail + (vowel - 1) * 28 + (lead - 1) * 588 + 44032 else 0

/-- `hangul_join`, on code points of letters; the third is zero if there is no final consonant. It
is zero for a number that is no letter, and for a third letter that cannot stand at the end of a
syllable; of the other two this is not tested. -/
def hangulJoin (lead vowel tail : ℕ) : ℕ :=
  if lead < 0x3131 ∨ lead > 0x3163 then 0
  else if vowel < 0x3131 ∨ vowel > 0x3163 then 0
  else if tail ≠ 0 then
    if tail < 0x3131 ∨ tail > 0x3163 then 0
    else if (jamoRow tail).2.2 = 0 then 0
    else joinPlaces (jamoRow lead).1 (jamoRow vowel).2.1 (jamoRow tail).2.2
  else joinPlaces (jamoRow lead).1 (jamoRow vowel).2.1 0

/-- `initials` -/
def hangulInitials : List ℕ :=
  [0x3131, 0x3132, 0x3134, 0x3137, 0x3138, 0x3139, 0x3141, 0x3142, 0x3143, 0x3145, 0x3146, 0x3147,
    0x3148, 0x3149, 0x314a, 0x314b, 0x314c, 0x314d, 0x314e]

/-- `medials` -/
def hangulMedials : List ℕ :=
  [0x314f, 0x3150, 0x3151, 0x3152, 0x3153, 0x3154, 0x3155, 0x3156, 0x3157, 0x3158, 0x3159, 0x315a,
    0x315b, 0x315c, 0x315d, 0x315e, 0x315f, 0x3160, 0x3161, 0x3162, 0x3163]

/-- `finals` -/
def hangulFinals : List ℕ :=
  [0x0000, 0x3131, 0x3132, 0x3133, 0x3134, 0x3135, 0x3136, 0x3137, 0x3139, 0x313a, 0x313b, 0x313c,
    0x313d, 0x313e, 0x313f, 0x3140, 0x3141, 0x3142, 0x3144, 0x3145, 0x3146, 0x3147, 0x3148, 0x314a,
    0x314b, 0x314c, 0x314d, 0x314e]

/-- `hangul_split` -/
def hangulSplit (chr : ℕ) : Option (ℕ × ℕ × ℕ) :=
  if chr ≥ 0xAC00 ∧ chr ≤ 0xD7A3 then
    let c := chr - 0xAC00
    some (hangulInitials.getD (c / (21 * 28)) 0, hangulMedials.getD (c % (21 * 28) / 28) 0,
      hangulFinals.getD (c % (21 * 28) % 28) 0)
  else none

/-! ## Syllables and their parts -/

/-- The letters between `0x3131` and `0x3163`. -/
lemma exists_jamo {c : ℕ} (h : ¬ (c < 0x3131 ∨ c > 0x3163)) : ∃ i < 51, c = 0x3131 + i :=
  ⟨c - 0x3131, by omega, by omega⟩

/-- The place of an initial consonant. -/
lemma jamoRow_lead {c : ℕ} (hc : ¬ (c < 0x3131 ∨ c > 0x3163)) :
    (jamoRow c).1 ≤ 19 ∧
    (hangulIsChoseongJamo c ↔ (jamoRow c).1 ≠ 0) ∧
    ((jamoRow c).1 ≠ 0 → hangulInitials.getD ((jamoRow c).1 - 1) 0 = c) := by
  obtain ⟨i, hi, rfl⟩ := exists_jamo hc
  clear hc
  revert i hi
  decide

/-- The place of a vowel. -/
lemma jamoRow_vowel {c : ℕ} (hc : ¬ (c < 0x3131 ∨ c > 0x3163)) :
    (jamoRow c).2.1 ≤ 21 ∧
    (hangulIsVowel c ↔ (jamoRow c).2.1 ≠ 0) ∧
    ((jamoRow c).2.1 ≠ 0 → hangulMedials.getD ((jamoRow c).2.1 - 1) 0 = c) := by
  obtain ⟨i, hi, rfl⟩ := exists_jamo hc
  clear hc
  revert i hi
  decide

/-- The place of a final consonant. -/
lemma jamoRow_tail {c : ℕ} (hc : ¬ (c < 0x3131 ∨ c > 0x3163)) :
    (jamoRow c).2.2 ≤ 27 ∧
    (hangulIsJongseongJamo c ↔ (jamoRow c).2.2 ≠ 0) ∧
    ((jamoRow c).2.2 ≠ 0 → hangulFinals.getD (jamoRow c).2.2 0 = c) := by
  obtain ⟨i, hi, rfl⟩ := exists_jamo hc
  clear hc
  revert i hi
  decide

/-- What there is to know about letters in the three places of a syllable. -/
def IsSyllable (lead vowel tail : ℕ) : Prop :=
  hangulIsChoseongJamo lead ∧ hangulIsVowel vowel ∧ (tail = 0 ∨ hangulIsJongseongJamo tail)

/-- The letters that may be in a place of a syllable are between `0x3131` and `0x3163`. -/
lemma IsSyllable.range {lead vowel tail : ℕ} (h : IsSyllable lead vowel tail) :
    ¬ (lead < 0x3131 ∨ lead > 0x3163) ∧ ¬ (vowel < 0x3131 ∨ vowel > 0x3163) ∧
      (tail ≠ 0 → ¬ (tail < 0x3131 ∨ tail > 0x3163)) := by
  obtain ⟨hl, hv, ht⟩ := h
  have hl' := hangulIsConsonant_iff.mp (hangulIsConsonant_of_choseong hl)
  have hv' := hangulIsVowel_iff.mp hv
  refine ⟨by omega, by omega, fun hne => ?_⟩
  have ht' := hangulIsConsonant_iff.mp (hangulIsConsonant_of_jongseong (ht.resolve_left hne))
  omega

/-- The three places that make a syllable. -/
lemma joinPlaces_of_ne {lead vowel : ℕ} (tail : ℕ) (hl : lead ≠ 0) (hv : vowel ≠ 0) :
    joinPlaces lead vowel tail = tail + (vowel - 1) * 28 + (lead - 1) * 588 + 44032 :=
  if_pos ⟨hl, hv⟩

/-- Nothing else is made of three places without an initial consonant or without a vowel. -/
lemma ne_of_joinPlaces {lead vowel tail : ℕ} (h : joinPlaces lead vowel tail ≠ 0) :
    lead ≠ 0 ∧ vowel ≠ 0 :=
  by_contra fun hnot => h (if_neg hnot)

/-- **The code point of a syllable** is made of the numbers of its letters. -/
lemma hangulJoin_eq {lead vowel tail : ℕ} (h : IsSyllable lead vowel tail) :
    ∃ a < 19, ∃ b < 21, ∃ k < 28, hangulJoin lead vowel tail = k + b * 28 + a * 588 + 44032 ∧
      hangulInitials.getD a 0 = lead ∧ hangulMedials.getD b 0 = vowel ∧
      hangulFinals.getD k 0 = tail := by
  obtain ⟨hl, hv, ht⟩ := h.range
  obtain ⟨hlplace, hlead, hlget⟩ := jamoRow_lead hl
  obtain ⟨hvplace, hvowel, hvget⟩ := jamoRow_vowel hv
  have hl0 := hlead.mp h.1
  have hv0 := hvowel.mp h.2.1
  rw [hangulJoin, if_neg hl, if_neg hv]
  by_cases ht0 : tail = 0
  · rw [if_neg (not_not.mpr ht0), joinPlaces_of_ne _ hl0 hv0]
    exact ⟨_, by omega, _, by omega, 0, by omega, rfl, hlget hl0, hvget hv0, ht0.symm⟩
  · obtain ⟨htplace, htail, htget⟩ := jamoRow_tail (ht ht0)
    have hrow := htail.mp (h.2.2.resolve_left ht0)
    rw [if_pos ht0, if_neg (ht ht0), if_neg hrow, joinPlaces_of_ne _ hl0 hv0]
    exact ⟨_, by omega, _, by omega, _, by omega, rfl, hlget hl0, hvget hv0, htget hrow⟩

/-- **What makes a syllable.** -/
lemma hangulJoin_ne_zero_iff {lead vowel tail : ℕ} :
    hangulJoin lead vowel tail ≠ 0 ↔ IsSyllable lead vowel tail := by
  constructor
  · intro h
    rw [hangulJoin] at h
    split_ifs at h with hl hv ht htr hrow
    iterate 4 exact absurd rfl h
    · obtain ⟨hlplace, hvplace⟩ := ne_of_joinPlaces h
      exact ⟨(jamoRow_lead hl).2.1.mpr hlplace, (jamoRow_vowel hv).2.1.mpr hvplace,
        .inr ((jamoRow_tail htr).2.1.mpr hrow)⟩
    · obtain ⟨hlplace, hvplace⟩ := ne_of_joinPlaces h
      exact ⟨(jamoRow_lead hl).2.1.mpr hlplace, (jamoRow_vowel hv).2.1.mpr hvplace,
        .inl (not_not.mp ht)⟩
  · intro h
    obtain ⟨a, -, b, -, k, -, hjoin, -⟩ := hangulJoin_eq h
    omega

/-- A syllable is in its block. -/
lemma hangulJoin_range {lead vowel tail : ℕ} (h : IsSyllable lead vowel tail) :
    0xAC00 ≤ hangulJoin lead vowel tail ∧ hangulJoin lead vowel tail ≤ 0xD7A3 := by
  obtain ⟨a, ha, b, hb, k, hk, hjoin, -⟩ := hangulJoin_eq h
  omega

/-- **A syllable is split into the letters that it has been joined from.** -/
lemma hangulSplit_join {lead vowel tail : ℕ} (h : IsSyllable lead vowel tail) :
    hangulSplit (hangulJoin lead vowel tail) = some (lead, vowel, tail) := by
  obtain ⟨a, ha, b, hb, k, hk, hjoin, hlead, hvowel, htail⟩ := hangulJoin_eq h
  have hc : hangulJoin lead vowel tail - 0xAC00 = k + b * 28 + a * 588 := by omega
  have hdiv : (k + b * 28 + a * 588) / (21 * 28) = a := by omega
  have hmod : (k + b * 28 + a * 588) % (21 * 28) = k + b * 28 := by omega
  have hb' : (k + b * 28) / 28 = b := by omega
  have hk' : (k + b * 28) % 28 = k := by omega
  rw [hangulSplit, if_pos (hangulJoin_range h)]
  simp only [hc, hdiv, hmod, hb', hk', hlead, hvowel, htail]

/-! ## Compound letters -/

/-- The search of the merge functions: the compound letter of two in a table, zero if there is none.
-/
def mergeLookup (table : List (Char × Char × Char)) (c1 c2 : ℕ) : ℕ :=
  match table.find? fun p => p.1.toNat == c1 && p.2.1.toNat == c2 with
  | some p => p.2.2.toNat
  | none => 0

/-- `hangul_consonant_merge_table` -/
def hangulConsonantMergeTable : List (Char × Char × Char) :=
  [('ㄱ', 'ㄱ', 'ㄲ'), ('ㄱ', 'ㅅ', 'ㄳ'), ('ㄴ', 'ㅈ', 'ㄵ'), ('ㄴ', 'ㅎ', 'ㄶ'), ('ㄷ', 'ㄷ', 'ㄸ'),
    ('ㄹ', 'ㄱ', 'ㄺ'), ('ㄹ', 'ㅁ', 'ㄻ'), ('ㄹ', 'ㅂ', 'ㄼ'), ('ㄹ', 'ㅅ', 'ㄽ'), ('ㄹ', 'ㅌ', 'ㄾ'),
    ('ㄹ', 'ㅍ', 'ㄿ'), ('ㄹ', 'ㅎ', 'ㅀ'), ('ㅂ', 'ㅂ', 'ㅃ'), ('ㅂ', 'ㅅ', 'ㅄ'), ('ㅅ', 'ㅅ', 'ㅆ'),
    ('ㅈ', 'ㅈ', 'ㅉ')]

/-- `hangul_merge_consonant` -/
def hangulMergeConsonant (cons1 cons2 : ℕ) : ℕ := mergeLookup hangulConsonantMergeTable cons1 cons2

/-- `hangul_vowel_merge_table` of `hangul_merge_vowel` -/
def hangulVowelMergeTable : List (Char × Char × Char) :=
  [('ㅗ', 'ㅏ', 'ㅘ'), ('ㅗ', 'ㅐ', 'ㅙ'), ('ㅗ', 'ㅣ', 'ㅚ'), ('ㅜ', 'ㅓ', 'ㅝ'), ('ㅜ', 'ㅔ', 'ㅞ'),
    ('ㅜ', 'ㅣ', 'ㅟ'), ('ㅡ', 'ㅣ', 'ㅢ')]

/-- `hangul_merge_vowel` -/
def hangulMergeVowel (vowel1 vowel2 : ℕ) : ℕ := mergeLookup hangulVowelMergeTable vowel1 vowel2

/-- `hangul_oldconsonant_merge_table`: up to three consonants and the old letter that they make, in
the order of the source, with a NUL where there are only two. -/
def hangulOldconsonantMergeTable : List (Char × Char × Char × Char) :=
  [('ㄴ', 'ㄴ', '\x00', 'ㅥ'), ('ㄴ', 'ㄷ', '\x00', 'ㅦ'), ('ㄴ', 'ㅅ', '\x00', 'ㅧ'),
    ('ㄴ', 'ㅿ', '\x00', 'ㅨ'), ('ㄹ', 'ㄱ', 'ㅅ', 'ㅩ'), ('ㄺ', 'ㅅ', '\x00', 'ㅩ'),
    ('ㄹ', 'ㄳ', '\x00', 'ㅩ'), ('ㄹ', 'ㄷ', '\x00', 'ㅪ'), ('ㄹ', 'ㅂ', 'ㅅ', 'ㅫ'),
    ('ㄼ', 'ㅅ', '\x00', 'ㅫ'), ('ㄹ', 'ㅄ', '\x00', 'ㅫ'), ('ㄹ', 'ㅿ', '\x00', 'ㅬ'),
    ('ㄹ', 'ㆆ', '\x00', 'ㅭ'), ('ㅁ', 'ㅂ', '\x00', 'ㅮ'), ('ㅁ', 'ㅅ', '\x00', 'ㅯ'),
    ('ㅁ', 'ㅿ', '\x00', 'ㅰ'), ('ㅁ', 'ㅇ', '\x00', 'ㅱ'), ('ㅂ', 'ㄱ', '\x00', 'ㅲ'),
    ('ㅂ', 'ㄷ', '\x00', 'ㅳ'), ('ㅂ', 'ㅅ', 'ㄱ', 'ㅴ'), ('ㅄ', 'ㄱ', '\x00', 'ㅴ'),
    ('ㅂ', 'ㅺ', '\x00', 'ㅴ'), ('ㅂ', 'ㅅ', 'ㄷ', 'ㅵ'), ('ㅄ', 'ㄷ', '\x00', 'ㅵ'),
    ('ㅂ', 'ㅼ', '\x00', 'ㅵ'), ('ㅂ', 'ㅈ', '\x00', 'ㅶ'), ('ㅂ', 'ㅌ', '\x00', 'ㅷ'),
    ('ㅂ', 'ㅇ', '\x00', 'ㅸ'), ('ㅃ', 'ㅇ', '\x00', 'ㅹ'), ('ㅅ', 'ㄱ', '\x00', 'ㅺ'),
    ('ㅅ', 'ㄴ', '\x00', 'ㅻ'), ('ㅅ', 'ㄷ', '\x00', 'ㅼ'), ('ㅅ', 'ㅂ', '\x00', 'ㅽ'),
    ('ㅅ', 'ㅈ', '\x00', 'ㅾ'), ('ㅇ', 'ㅇ', '\x00', 'ㆀ'), ('ㆁ', 'ㅅ', '\x00', 'ㆂ'),
    ('ㆁ', 'ㅿ', '\x00', 'ㆃ'), ('ㅍ', 'ㅇ', '\x00', 'ㆄ'), ('ㅎ', 'ㅎ', '\x00', 'ㆅ')]

/-- `hangul_merge_allconsonant`: the letters that are still in use come first, and only where they
have no such letter the table of the old ones is searched. -/
def hangulMergeAllconsonant (cons1 cons2 cons3 : ℕ) : ℕ :=
  let result := if cons3 = 0 then hangulMergeConsonant cons1 cons2 else 0
  if result ≠ 0 then result
  else
    match hangulOldconsonantMergeTable.find? fun p =>
      p.1.toNat == cons1 && p.2.1.toNat == cons2 && p.2.2.1.toNat == cons3 with
    | some p => p.2.2.2.toNat
    | none => 0

/-- `hangul_vowel_merge_table` of `hangul_merge_allvowel` -/
def hangulOldvowelMergeTable : List (Char × Char × Char) :=
  [('ㅛ', 'ㅑ', 'ㆇ'), ('ㅛ', 'ㅒ', 'ㆈ'), ('ㅛ', 'ㅣ', 'ㆉ'), ('ㅠ', 'ㅕ', 'ㆊ'), ('ㅠ', 'ㅖ', 'ㆋ'),
    ('ㅠ', 'ㅣ', 'ㆌ'), ('ㆍ', 'ㅣ', 'ㆎ')]

/-- `hangul_merge_allvowel` -/
def hangulMergeAllvowel (vowel1 vowel2 : ℕ) : ℕ :=
  let result := hangulMergeVowel vowel1 vowel2
  if result ≠ 0 then result else mergeLookup hangulOldvowelMergeTable vowel1 vowel2

/-! ## Basic letters -/

/-- The letters that are made of others, each with its parts. The table is not in the source: it
says what is typed for a letter, for the statement that no letter gets lost. -/
def compoundJamo : List (Char × List Char) :=
  [('ㄲ', ['ㄱ', 'ㄱ']), ('ㄳ', ['ㄱ', 'ㅅ']), ('ㄵ', ['ㄴ', 'ㅈ']), ('ㄶ', ['ㄴ', 'ㅎ']),
    ('ㄸ', ['ㄷ', 'ㄷ']), ('ㄺ', ['ㄹ', 'ㄱ']), ('ㄻ', ['ㄹ', 'ㅁ']), ('ㄼ', ['ㄹ', 'ㅂ']),
    ('ㄽ', ['ㄹ', 'ㅅ']), ('ㄾ', ['ㄹ', 'ㅌ']), ('ㄿ', ['ㄹ', 'ㅍ']), ('ㅀ', ['ㄹ', 'ㅎ']),
    ('ㅃ', ['ㅂ', 'ㅂ']), ('ㅄ', ['ㅂ', 'ㅅ']), ('ㅆ', ['ㅅ', 'ㅅ']), ('ㅉ', ['ㅈ', 'ㅈ']),
    ('ㅘ', ['ㅗ', 'ㅏ']), ('ㅙ', ['ㅗ', 'ㅐ']), ('ㅚ', ['ㅗ', 'ㅣ']), ('ㅝ', ['ㅜ', 'ㅓ']),
    ('ㅞ', ['ㅜ', 'ㅔ']), ('ㅟ', ['ㅜ', 'ㅣ']), ('ㅢ', ['ㅡ', 'ㅣ']),
    ('ㅥ', ['ㄴ', 'ㄴ']), ('ㅦ', ['ㄴ', 'ㄷ']), ('ㅧ', ['ㄴ', 'ㅅ']), ('ㅨ', ['ㄴ', 'ㅿ']),
    ('ㅩ', ['ㄹ', 'ㄱ', 'ㅅ']), ('ㅪ', ['ㄹ', 'ㄷ']), ('ㅫ', ['ㄹ', 'ㅂ', 'ㅅ']),
    ('ㅬ', ['ㄹ', 'ㅿ']), ('ㅭ', ['ㄹ', 'ㆆ']), ('ㅮ', ['ㅁ', 'ㅂ']), ('ㅯ', ['ㅁ', 'ㅅ']),
    ('ㅰ', ['ㅁ', 'ㅿ']), ('ㅱ', ['ㅁ', 'ㅇ']), ('ㅲ', ['ㅂ', 'ㄱ']), ('ㅳ', ['ㅂ', 'ㄷ']),
    ('ㅴ', ['ㅂ', 'ㅅ', 'ㄱ']), ('ㅵ', ['ㅂ', 'ㅅ', 'ㄷ']), ('ㅶ', ['ㅂ', 'ㅈ']),
    ('ㅷ', ['ㅂ', 'ㅌ']), ('ㅸ', ['ㅂ', 'ㅇ']), ('ㅹ', ['ㅂ', 'ㅂ', 'ㅇ']), ('ㅺ', ['ㅅ', 'ㄱ']),
    ('ㅻ', ['ㅅ', 'ㄴ']), ('ㅼ', ['ㅅ', 'ㄷ']), ('ㅽ', ['ㅅ', 'ㅂ']), ('ㅾ', ['ㅅ', 'ㅈ']),
    ('ㆀ', ['ㅇ', 'ㅇ']), ('ㆂ', ['ㆁ', 'ㅅ']), ('ㆃ', ['ㆁ', 'ㅿ']), ('ㆄ', ['ㅍ', 'ㅇ']),
    ('ㆅ', ['ㅎ', 'ㅎ']), ('ㆇ', ['ㅛ', 'ㅑ']), ('ㆈ', ['ㅛ', 'ㅒ']), ('ㆉ', ['ㅛ', 'ㅣ']),
    ('ㆊ', ['ㅠ', 'ㅕ']), ('ㆋ', ['ㅠ', 'ㅖ']), ('ㆌ', ['ㅠ', 'ㅣ']), ('ㆎ', ['ㆍ', 'ㅣ'])]

/-- The basic letters of a letter; another character is its own. -/
def letterJamo (c : ℕ) : List ℕ :=
  match compoundJamo.find? fun p => p.1.toNat == c with
  | some p => p.2.map Char.toNat
  | none => [c]

/-- The basic letters of a place of a syllable, which may be empty. -/
def placeJamo (c : ℕ) : List ℕ := if c = 0 then [] else letterJamo c

/-- **The basic letters** of a syllable, of a letter, or another character as it is. -/
def basicJamo (c : ℕ) : List ℕ :=
  match hangulSplit c with
  | some (lead, vowel, tail) => letterJamo lead ++ letterJamo vowel ++ placeJamo tail
  | none => letterJamo c

/-- An empty place has no letters. -/
@[simp] lemma placeJamo_zero : placeJamo 0 = [] := rfl

/-- The letters of a place that is not empty. -/
lemma placeJamo_of_ne {c : ℕ} (h : c ≠ 0) : placeJamo c = letterJamo c := if_neg h

/-- A character in front of the syllables is a letter, or its own. -/
lemma basicJamo_of_lt {c : ℕ} (h : c < 0xAC00) : basicJamo c = letterJamo c := by
  have hsplit : hangulSplit c = none := if_neg (by omega)
  rw [basicJamo, hsplit]

/-- **A syllable has the basic letters of its parts.** -/
lemma basicJamo_join {lead vowel tail : ℕ} (h : IsSyllable lead vowel tail) :
    basicJamo (hangulJoin lead vowel tail) =
      letterJamo lead ++ letterJamo vowel ++ placeJamo tail := by
  rw [basicJamo, hangulSplit_join h]

/-! ## The tables of compound letters -/

/-- **A compound letter that has been found** is in the table, with its two parts. -/
lemma mergeLookup_spec {table : List (Char × Char × Char)} {c1 c2 : ℕ}
    (h : mergeLookup table c1 c2 ≠ 0) : ∃ p ∈ table, p.1.toNat = c1 ∧ p.2.1.toNat = c2 ∧
      mergeLookup table c1 c2 = p.2.2.toNat := by
  rw [mergeLookup] at h ⊢
  cases hfind : table.find? fun p => p.1.toNat == c1 && p.2.1.toNat == c2 with
  | none =>
    rw [hfind] at h
    exact absurd rfl h
  | some p =>
    have hp := List.find?_some hfind
    rw [Bool.and_eq_true, beq_iff_eq, beq_iff_eq] at hp
    exact ⟨p, List.mem_of_find?_eq_some hfind, hp.1, hp.2, rfl⟩

/-- A consonant or a vowel, of today or old. -/
def IsJamo (c : ℕ) : Prop := 0x3131 ≤ c ∧ c ≤ 0x318e

/-- A vowel, of today or old. -/
def IsAnyVowel (c : ℕ) : Prop := (0x314f ≤ c ∧ c ≤ 0x3163) ∨ (0x3187 ≤ c ∧ c ≤ 0x318e)

/-- The rows of `hangul_consonant_merge_table`. -/
lemma consonantTable_spec : ∀ p ∈ hangulConsonantMergeTable,
    (hangulIsJongseongJamo p.1.toNat = true ∧ 0x3131 ≤ p.2.2.toNat ∧ p.2.2.toNat ≤ 0x318e) ∧
      letterJamo p.2.2.toNat = letterJamo p.1.toNat ++ letterJamo p.2.1.toNat := by
  decide

/-- The rows of `hangul_oldconsonant_merge_table`. -/
lemma oldconsonantTable_spec : ∀ p ∈ hangulOldconsonantMergeTable,
    (0x3131 ≤ p.2.2.2.toNat ∧ p.2.2.2.toNat ≤ 0x318e) ∧
      (p.2.2.1.toNat = 0 →
        letterJamo p.2.2.2.toNat = letterJamo p.1.toNat ++ letterJamo p.2.1.toNat) := by
  decide

/-- The rows of the first `hangul_vowel_merge_table`. -/
lemma vowelTable_spec : ∀ p ∈ hangulVowelMergeTable,
    (hangulIsVowel p.1.toNat = true ∧ hangulIsVowel p.2.2.toNat = true) ∧
      letterJamo p.2.2.toNat = letterJamo p.1.toNat ++ letterJamo p.2.1.toNat := by
  decide

/-- The rows of the second `hangul_vowel_merge_table`. -/
lemma oldvowelTable_spec : ∀ p ∈ hangulOldvowelMergeTable,
    (0x3187 ≤ p.2.2.toNat ∧ p.2.2.toNat ≤ 0x318e) ∧
      letterJamo p.2.2.toNat = letterJamo p.1.toNat ++ letterJamo p.2.1.toNat := by
  decide

/-- `hangul_merge_consonant`: the first consonant can be a final one, and no part is lost. -/
lemma hangulMergeConsonant_spec {c1 c2 : ℕ} (h : hangulMergeConsonant c1 c2 ≠ 0) :
    hangulIsJongseongJamo c1 ∧ IsJamo (hangulMergeConsonant c1 c2) ∧
      letterJamo (hangulMergeConsonant c1 c2) = letterJamo c1 ++ letterJamo c2 := by
  obtain ⟨p, hp, rfl, rfl, hmerge⟩ := mergeLookup_spec h
  obtain ⟨⟨hjong, hjamo⟩, hletters⟩ := consonantTable_spec p hp
  rw [hangulMergeConsonant, hmerge]
  exact ⟨hjong, hjamo, hletters⟩

/-- `hangul_merge_allconsonant` for two consonants: no part is lost.

**Proof sketch.** Two consonants are merged by the first table, if it has them; otherwise by the
second one, in which an entry of two is searched. In both tables the letters of the result are those
of the parts. -/
lemma hangulMergeAllconsonant_spec {c1 c2 : ℕ} (h : hangulMergeAllconsonant c1 c2 0 ≠ 0) :
    IsJamo (hangulMergeAllconsonant c1 c2 0) ∧
      letterJamo (hangulMergeAllconsonant c1 c2 0) = letterJamo c1 ++ letterJamo c2 := by
  rw [hangulMergeAllconsonant] at h ⊢
  simp only [if_true] at h ⊢
  by_cases hcons : hangulMergeConsonant c1 c2 ≠ 0
  · rw [if_pos hcons]
    exact (hangulMergeConsonant_spec hcons).2
  · rw [if_neg hcons] at h ⊢
    cases hfind : hangulOldconsonantMergeTable.find? fun p =>
        p.1.toNat == c1 && p.2.1.toNat == c2 && p.2.2.1.toNat == 0 with
    | none =>
      rw [hfind] at h
      exact absurd rfl h
    | some p =>
      have hp := List.find?_some hfind
      rw [Bool.and_eq_true, Bool.and_eq_true, beq_iff_eq, beq_iff_eq, beq_iff_eq] at hp
      obtain ⟨⟨rfl, rfl⟩, h0⟩ := hp
      obtain ⟨hjamo, hletters⟩ := oldconsonantTable_spec p (List.mem_of_find?_eq_some hfind)
      exact ⟨hjamo, hletters h0⟩

/-- `hangul_merge_vowel`: both are vowels of today, no part is lost, and a compound vowel is not the
first part of another one. -/
lemma hangulMergeVowel_spec {v1 v2 : ℕ} (h : hangulMergeVowel v1 v2 ≠ 0) :
    hangulIsVowel v1 ∧ hangulIsVowel (hangulMergeVowel v1 v2) ∧
      letterJamo (hangulMergeVowel v1 v2) = letterJamo v1 ++ letterJamo v2 ∧
      ∀ v, hangulMergeVowel (hangulMergeVowel v1 v2) v = 0 := by
  have hlast : ∀ p ∈ hangulVowelMergeTable, ∀ q ∈ hangulVowelMergeTable,
      q.1.toNat ≠ p.2.2.toNat := by
    decide
  obtain ⟨p, hp, rfl, rfl, hmerge⟩ := mergeLookup_spec h
  obtain ⟨⟨hvowel1, hvowel⟩, hletters⟩ := vowelTable_spec p hp
  have hcompound : hangulMergeVowel p.1.toNat p.2.1.toNat = p.2.2.toNat := hmerge
  rw [hcompound]
  refine ⟨hvowel1, hvowel, hletters, fun v => ?_⟩
  by_contra hne
  obtain ⟨q, hq, heq, -⟩ := mergeLookup_spec hne
  exact hlast p hp q hq heq

/-- `hangul_merge_allvowel`: no part is lost. -/
lemma hangulMergeAllvowel_spec {v1 v2 : ℕ} (h : hangulMergeAllvowel v1 v2 ≠ 0) :
    IsAnyVowel (hangulMergeAllvowel v1 v2) ∧
      letterJamo (hangulMergeAllvowel v1 v2) = letterJamo v1 ++ letterJamo v2 := by
  rw [hangulMergeAllvowel] at h ⊢
  by_cases hvowel : hangulMergeVowel v1 v2 ≠ 0
  · rw [if_pos hvowel]
    obtain ⟨-, hmerged, hletters, -⟩ := hangulMergeVowel_spec hvowel
    exact ⟨.inl (hangulIsVowel_iff.mp hmerged), hletters⟩
  · rw [if_neg hvowel] at h ⊢
    obtain ⟨p, hp, rfl, rfl, hmerge⟩ := mergeLookup_spec h
    obtain ⟨hold, hletters⟩ := oldvowelTable_spec p hp
    rw [hmerge]
    exact ⟨.inr hold, hletters⟩

/-! ## The basic letters of consonants, vowels and other characters -/

/-- The compound letters are behind ASCII, and so are their parts. -/
lemma compoundJamo_spec : ∀ p ∈ compoundJamo, 0x3131 ≤ p.1.toNat ∧
    ∀ x ∈ p.2, 0x80 ≤ x.toNat := by
  have hall : (compoundJamo.all fun p =>
      0x3131 ≤ p.1.toNat && p.2.all fun x => 0x80 ≤ x.toNat) = true := by
    decide
  simpa using hall

/-- A character that is in front of the letters is its own. -/
lemma letterJamo_of_lt {c : ℕ} (h : c < 0x3131) : letterJamo c = [c] := by
  have hfind : (compoundJamo.find? fun p => p.1.toNat == c) = none := by
    refine List.find?_eq_none.mpr fun p hp hpc => ?_
    have := (compoundJamo_spec p hp).1
    rw [beq_iff_eq] at hpc
    omega
  rw [letterJamo, hfind]

/-- The letters of a character behind ASCII are behind ASCII. -/
lemma letterJamo_ge {c : ℕ} (h : 0x80 ≤ c) : ∀ x ∈ letterJamo c, 0x80 ≤ x := by
  rw [letterJamo]
  split
  · rename_i p hfind
    intro x hx
    obtain ⟨y, hy, rfl⟩ := List.mem_map.mp hx
    exact (compoundJamo_spec p (List.mem_of_find?_eq_some hfind)).2 y hy
  · intro x hx
    rwa [List.mem_singleton.mp hx]

/-- The parts of a syllable are behind ASCII. -/
lemma basicJamo_ge {c : ℕ} (h : 0x80 ≤ c) : ∀ x ∈ basicJamo c, 0x80 ≤ x := by
  have hinitials : ∀ a < 19, 0x80 ≤ hangulInitials.getD a 0 := by decide
  have hmedials : ∀ b < 21, 0x80 ≤ hangulMedials.getD b 0 := by decide
  have hfinals : ∀ k < 28, hangulFinals.getD k 0 ≠ 0 → 0x80 ≤ hangulFinals.getD k 0 := by decide
  by_cases hc : c ≥ 0xAC00 ∧ c ≤ 0xD7A3
  · rw [basicJamo, hangulSplit, if_pos hc]
    intro x hx
    rcases List.mem_append.mp hx with hx | hx
    · rcases List.mem_append.mp hx with hx | hx
      · exact letterJamo_ge (hinitials _ (by omega)) x hx
      · exact letterJamo_ge (hmedials _ (by omega)) x hx
    · rw [placeJamo] at hx
      split_ifs at hx with h0
      · exact absurd hx List.not_mem_nil
      · exact letterJamo_ge (hfinals _ (by omega) h0) x hx
  · rw [basicJamo, hangulSplit, if_neg hc]
    exact letterJamo_ge h

/-- A consonant or a vowel is a letter. -/
lemma IsJamo.ne_zero {c : ℕ} (h : IsJamo c) : c ≠ 0 := by
  have := h.1
  omega

/-- A letter stands in front of the syllables. -/
lemma IsJamo.basicJamo {c : ℕ} (h : IsJamo c) : basicJamo c = letterJamo c := by
  have := h.2
  exact basicJamo_of_lt (by omega)

/-- An initial consonant is a letter. -/
lemma IsJamo.of_choseong {c : ℕ} (h : hangulIsChoseongJamo c) : IsJamo c := by
  have := hangulIsConsonant_iff.mp (hangulIsConsonant_of_choseong h)
  exact ⟨by omega, by omega⟩

/-- A vowel is a letter. -/
lemma IsAnyVowel.isJamo {c : ℕ} (h : IsAnyVowel c) : IsJamo c := by
  obtain ⟨hge, hle⟩ | ⟨hge, hle⟩ := h <;> exact ⟨by omega, by omega⟩

/-- A vowel of today is a vowel. -/
lemma IsAnyVowel.of_vowel {c : ℕ} (h : hangulIsVowel c) : IsAnyVowel c :=
  .inl (hangulIsVowel_iff.mp h)

/-- An initial consonant is not zero. -/
lemma ne_zero_of_choseong {c : ℕ} (h : hangulIsChoseongJamo c) : c ≠ 0 :=
  (IsJamo.of_choseong h).ne_zero

/-- A vowel of today is not zero. -/
lemma ne_zero_of_vowel {c : ℕ} (h : hangulIsVowel c) : c ≠ 0 :=
  (IsAnyVowel.of_vowel h).isJamo.ne_zero

/-- A vowel is not a consonant. -/
lemma not_consonant_of_vowel {c : ℕ} (h : hangulIsVowel c) : ¬ hangulIsConsonant c := by
  have := hangulIsVowel_iff.mp h
  rw [hangulIsConsonant_iff]
  omega

/-- **An initial consonant** begins with a consonant. -/
lemma letterJamo_choseong {c : ℕ} (h : hangulIsChoseongJamo c) :
    ∃ x xs, letterJamo c = x :: xs ∧ x < 0x314f := by
  have hall : ∀ i < 51, hangulIsChoseongJamo (0x3131 + i) →
      (letterJamo (0x3131 + i)).headD 0x314f < 0x314f := by
    decide
  have hrange : IsSyllable c 0x314f 0 := ⟨h, rfl, .inl rfl⟩
  obtain ⟨i, hi, rfl⟩ := exists_jamo hrange.range.1
  have hhead := hall i hi h
  cases hl : letterJamo (0x3131 + i) with
  | nil =>
    rw [hl, List.headD_nil] at hhead
    exact absurd hhead (lt_irrefl _)
  | cons x xs =>
    rw [hl, List.headD_cons] at hhead
    exact ⟨x, xs, rfl, hhead⟩

/-- **A vowel** begins with a vowel. -/
lemma letterJamo_anyVowel {c : ℕ} (h : IsAnyVowel c) :
    ∃ x xs, letterJamo c = x :: xs ∧ 0x314f ≤ x := by
  have htoday : ∀ i < 21, 0x314f ≤ (letterJamo (0x314f + i)).headD 0 := by decide
  have hold : ∀ i < 8, 0x314f ≤ (letterJamo (0x3187 + i)).headD 0 := by decide
  have hhead : 0x314f ≤ (letterJamo c).headD 0 := by
    rcases h with ⟨hge, hle⟩ | ⟨hge, hle⟩
    · obtain ⟨i, rfl⟩ := Nat.exists_eq_add_of_le hge
      exact htoday i (by omega)
    · obtain ⟨i, rfl⟩ := Nat.exists_eq_add_of_le hge
      exact hold i (by omega)
  cases hl : letterJamo c with
  | nil =>
    rw [hl, List.headD_nil] at hhead
    omega
  | cons x xs =>
    rw [hl, List.headD_cons] at hhead
    exact ⟨x, xs, rfl, hhead⟩

end Meowbot

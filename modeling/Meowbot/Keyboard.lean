import Meowbot.QwertyTo2bul
import Meowbot.Lib.Transducer

set_option relaxedAutoImplicit false
set_option autoImplicit false

/-!
# The syllables of the keyboard conversion

The loop of `qwerty_to_2bul` is a transducer from keys to characters that holds the letters in its
slots back. As long as each vowel in front of a consonant has an initial consonant, the slots are in
one of five phases, and the basic letters that have been written and those that are held are the
basic letters of the keys. A consonant behind a vowel without an initial one is put in front of it.

## Main definitions

* `Meowbot.keyboard` — the conversion as a transducer; `Meowbot.Slots.held` — what it holds.
* `Meowbot.KeyFits` — a key is not a consonant behind a vowel without an initial one.
* `Meowbot.Phase` — where the conversion is in a syllable.

## Main results

* `Meowbot.keyboard_conserves` — a key that fits is kept.
* `Meowbot.keyboard_loses` — a key that does not fit is moved or lost.
* `Meowbot.keyboard_keeps_iff` — which keys are kept.
-/

namespace Meowbot

/-! ## The conversion as a transducer -/

/-- A key and its letter. -/
abbrev Key := Byte × ℕ

/-- The conversion of keys to characters. -/
def keyboard : Transducer Slots Key ℕ where
  step s a :=
    if a.2 = 0 then (s.commit.1, s.commit.2 ++ [a.1.toNat])
    else if hangulIsConsonant a.2 then s.consonant a.2
    else s.vowel a.2
  flush s := s.commit.2

/-- The step for a key without a letter. -/
lemma keyboard_step_zero (s : Slots) {a : Key} (h : a.2 = 0) :
    keyboard.step s a = (s.commit.1, s.commit.2 ++ [a.1.toNat]) :=
  if_pos h

/-- The step for a consonant. -/
lemma keyboard_step_consonant (s : Slots) {a : Key} (h : hangulIsConsonant a.2) :
    keyboard.step s a = s.consonant a.2 := by
  have h0 : a.2 ≠ 0 := by
    have := hangulIsConsonant_iff.mp h
    omega
  exact (if_neg h0).trans (if_pos h)

/-- The step for another letter. -/
lemma keyboard_step_vowel (s : Slots) {a : Key} (h0 : a.2 ≠ 0) (h : ¬ hangulIsConsonant a.2) :
    keyboard.step s a = s.vowel a.2 :=
  (if_neg h0).trans (if_neg h)

/-- The keys that there are: ASCII characters, initial consonants and vowels. -/
def IsKey (a : Key) : Prop :=
  (a.2 = 0 ∧ a.1.toNat < 0x80) ∨ hangulIsChoseongJamo a.2 ∨ hangulIsVowel a.2

/-- The basic letters of a key. -/
def keyParts (a : Key) : List ℕ := if a.2 = 0 then [a.1.toNat] else letterJamo a.2

/-- The basic letters in the slots. -/
def Slots.held (s : Slots) : List ℕ := placeJamo s.cho ++ placeJamo s.jung ++ placeJamo s.jong

/-! ## Where the conversion is in a syllable -/

/-- The last key (the first of the list) is a consonant. -/
def AfterConsonant (done : List Key) : Prop := ∃ k ∈ done.head?, hangulIsConsonant k.2

/-- The vowel behind some keys (the last one first) has an initial consonant. -/
def HasInitial (v : Key) (done : List Key) : Prop :=
  AfterConsonant done ∨
    ∃ u rest, done = u :: rest ∧ hangulMergeVowel u.2 v.2 ≠ 0 ∧ AfterConsonant rest

/-- A key fits behind the others if it is not a consonant behind a vowel without an initial one. -/
def KeyFits (done : List Key) (a : Key) : Prop :=
  hangulIsConsonant a.2 → ∀ v rest, done = v :: rest → hangulIsVowel v.2 → HasInitial v rest

/-- A consonant in the first slot, and its parts if it cannot be an initial one. -/
def InitialSlot (cho : ℕ) (splitted : ℕ × ℕ) : Prop :=
  IsJamo cho ∧ (hangulIsChoseongJamo cho ∨
    IsJamo splitted.1 ∧ hangulIsChoseongJamo splitted.2 ∧
      letterJamo cho = letterJamo splitted.1 ++ letterJamo splitted.2)

/-- A consonant in the last slot, and its parts if it cannot be the next initial one. -/
def FinalSlot (jong : ℕ) (splitted : ℕ × ℕ) : Prop :=
  IsJamo jong ∧ (hangulIsChoseongJamo jong ∨
    hangulIsJongseongJamo splitted.1 ∧ hangulIsChoseongJamo splitted.2 ∧
      letterJamo jong = letterJamo splitted.1 ++ letterJamo splitted.2)

/-- A vowel in the second slot: it is the last key, or made of the last two. -/
def VowelSlot (jung : ℕ) (v : Key) (done : List Key) : Prop :=
  (jung = v.2 ∧ AfterConsonant done) ∨
    ∃ u rest, done = u :: rest ∧ hangulMergeVowel u.2 v.2 ≠ 0 ∧
      jung = hangulMergeVowel u.2 v.2 ∧ AfterConsonant rest

/-- **Where the conversion is**, after some keys (the last one first), as long as all of them fit:
nothing is held, or consonants, or a syllable, or a syllable with a final consonant. Each phase says
what the slots of the source hold. -/
inductive Phase : List Key → Slots → Prop
  /-- Nothing is held. -/
  | empty {done : List Key} {s : Slots} (hdone : ∀ k ∈ done.head?, k.2 = 0) (hcho : s.cho = 0)
      (hjung : s.jung = 0) (hjong : s.jong = 0) : Phase done s
  /-- Consonants are held. -/
  | initial {done : List Key} {s : Slots} (hdone : AfterConsonant done)
      (hcho : InitialSlot s.cho s.choSplitted) (hjung : s.jung = 0) (hjong : s.jong = 0) :
      Phase done s
  /-- A syllable without a final consonant is held. -/
  | syllable {v : Key} {done : List Key} {s : Slots} (hv : hangulIsVowel v.2)
      (hdone : VowelSlot s.jung v done) (hcho : hangulIsChoseongJamo s.cho)
      (hjung : hangulIsVowel s.jung) (hjong : s.jong = 0) : Phase (v :: done) s
  /-- A syllable with a final consonant is held. -/
  | final {done : List Key} {s : Slots} (hdone : AfterConsonant done)
      (hcho : hangulIsChoseongJamo s.cho) (hjung : hangulIsVowel s.jung)
      (hjong : FinalSlot s.jong s.jongSplitted) : Phase done s
  /-- Vowels are held. -/
  | lone {v : Key} {done : List Key} {s : Slots} (hv : hangulIsVowel v.2)
      (hdone : ¬ HasInitial v done) (hcho : s.cho = 0) (hjung : IsAnyVowel s.jung)
      (hjong : s.jong = 0) : Phase (v :: done) s

/-- The last key being a vowel, it is not a consonant. -/
lemma not_afterConsonant {v : Key} {done : List Key} (h : hangulIsVowel v.2) :
    ¬ AfterConsonant (v :: done) := by
  rintro ⟨k, hk, hcons⟩
  obtain rfl : v = k := by simpa using hk
  exact not_consonant_of_vowel h hcons

/-! ## What is written when keys fit -/

/-- **A completed syllable** has the letters of the slots. -/
lemma finish_parts {cho jung jong : ℕ} (hcho : hangulIsChoseongJamo cho)
    (hjung : hangulIsVowel jung) (hjong : jong = 0 ∨ IsJamo jong) :
    (Slots.finish cho jung jong).flatMap basicJamo =
      letterJamo cho ++ letterJamo jung ++ placeJamo jong := by
  rw [Slots.finish]
  split_ifs with h
  · have hj := hjong.resolve_left h.1
    rw [List.flatMap_cons, List.flatMap_singleton, basicJamo_join ⟨hcho, hjung, .inl rfl⟩,
      hj.basicJamo, placeJamo_of_ne h.1, placeJamo_zero, List.append_nil]
  · have hj : jong = 0 ∨ hangulIsJongseongJamo jong = true :=
      or_iff_not_imp_left.mpr fun hne => not_not.mp fun hnot => h ⟨hne, hnot⟩
    rw [List.flatMap_singleton, basicJamo_join ⟨hcho, hjung, hj⟩]

/-- **What is committed** is what has been held.

**Proof sketch.** By cases on the phase. Nothing is held, or the letters that are held are single
ones, or they are joined to a syllable, whose basic letters are those of its parts. -/
lemma commit_parts {done : List Key} {s : Slots} (h : Phase done s) :
    s.commit.2.flatMap basicJamo = s.held := by
  rw [Slots.commit, Slots.held]
  cases h with
  | empty hdone hcho hjung hjong => simp [hcho, hjung, hjong]
  | initial hdone hcho hjung hjong =>
    simp [hcho.1.ne_zero, hjung, hjong, hcho.1.basicJamo, placeJamo_of_ne]
  | syllable hv hdone hcho hjung hjong =>
    have hcho0 := ne_zero_of_choseong hcho
    have hjung0 := ne_zero_of_vowel hjung
    rw [if_pos ⟨hcho0, hjung0⟩, finish_parts hcho hjung (.inl hjong), placeJamo_of_ne hcho0,
      placeJamo_of_ne hjung0]
  | final hdone hcho hjung hjong =>
    have hcho0 := ne_zero_of_choseong hcho
    have hjung0 := ne_zero_of_vowel hjung
    rw [if_pos ⟨hcho0, hjung0⟩, finish_parts hcho hjung (.inr hjong.1), placeJamo_of_ne hcho0,
      placeJamo_of_ne hjung0]
  | lone hv hdone hcho hjung hjong =>
    simp [hcho, hjung.isJamo.ne_zero, hjong, hjung.isJamo.basicJamo, placeJamo_of_ne]

/-- A step from one phase to another that loses nothing. -/
def Conserves (done : List Key) (s : Slots) (a : Key) (r : Slots × List ℕ) : Prop :=
  Phase (a :: done) r.1 ∧ r.2.flatMap basicJamo ++ r.1.held = s.held ++ keyParts a

/-- **A key without a letter.** -/
lemma commit_conserves {done : List Key} {s : Slots} {a : Key} (ha : a.2 = 0)
    (hascii : a.1.toNat < 0x80) (h : Phase done s) :
    Conserves done s a (s.commit.1, s.commit.2 ++ [a.1.toNat]) := by
  have hchar : basicJamo a.1.toNat = [a.1.toNat] := by
    rw [basicJamo_of_lt (by omega), letterJamo_of_lt (by omega)]
  refine ⟨.empty (fun k hk => ?_) rfl rfl rfl, ?_⟩
  · obtain rfl : a = k := by simpa using hk
    exact ha
  · have hheld : s.commit.1.held = [] := rfl
    rw [hheld, List.append_nil, List.flatMap_append, commit_parts h, List.flatMap_singleton, hchar,
      keyParts, if_pos ha]

/-- A consonant that is put in the first slot. -/
lemma InitialSlot.of_choseong {c : ℕ} (h : hangulIsChoseongJamo c) (splitted : ℕ × ℕ) :
    InitialSlot c splitted :=
  ⟨.of_choseong h, .inl h⟩

/-- A consonant that is put in the last slot. -/
lemma FinalSlot.of_choseong {c : ℕ} (h : hangulIsChoseongJamo c) (splitted : ℕ × ℕ) :
    FinalSlot c splitted :=
  ⟨.of_choseong h, .inl h⟩

/-- The last key is a consonant. -/
lemma AfterConsonant.of_choseong {a : Key} (h : hangulIsChoseongJamo a.2) (done : List Key) :
    AfterConsonant (a :: done) :=
  ⟨a, rfl, hangulIsConsonant_of_choseong h⟩

/-- **A consonant** that fits.

**Proof sketch.** By the slots that are in use. A compound consonant has the letters of its parts,
so it does not matter if two consonants become one; and what is completed has the letters of the
slots. -/
lemma consonant_conserves {done : List Key} {s : Slots} {a : Key} (ha : hangulIsChoseongJamo a.2)
    (hfits : KeyFits done a) (h : Phase done s) : Conserves done s a (s.consonant a.2) := by
  have ha0 := ne_zero_of_choseong ha
  have hlast := AfterConsonant.of_choseong ha done
  have hkey : keyParts a = letterJamo a.2 := if_neg ha0
  rw [Conserves, hkey, Slots.consonant]
  cases h with
  | empty hdone hcho hjung hjong =>
    rw [if_pos hcho]
    refine ⟨.initial hlast (.of_choseong ha _) hjung hjong, ?_⟩
    simp [Slots.held, hcho, hjung, hjong, placeJamo_of_ne ha0]
  | initial hdone hcho hjung hjong =>
    have hcho0 := hcho.1.ne_zero
    rw [if_neg hcho0, if_pos hjung]
    by_cases hmerge : hangulMergeAllconsonant s.cho a.2 0 ≠ 0
    · obtain ⟨hjamo, hletters⟩ := hangulMergeAllconsonant_spec hmerge
      rw [if_pos hmerge, if_pos hjung]
      refine ⟨.initial hlast ⟨hjamo, .inr ⟨hcho.1, ha, hletters⟩⟩ hjung hjong, ?_⟩
      simp [Slots.held, hjung, hjong, placeJamo_of_ne hmerge, placeJamo_of_ne hcho0, hletters]
    · rw [if_neg hmerge]
      refine ⟨.initial hlast (.of_choseong ha _) hjung hjong, ?_⟩
      simp [Slots.held, hjung, hjong, placeJamo_of_ne ha0, placeJamo_of_ne hcho0, hcho.1.basicJamo]
  | syllable hv hdone hcho hjung hjong =>
    have hcho0 := ne_zero_of_choseong hcho
    have hjung0 := ne_zero_of_vowel hjung
    rw [if_neg hcho0, if_neg hjung0, if_pos hjong]
    refine ⟨.final hlast hcho hjung (.of_choseong ha _), ?_⟩
    simp [Slots.held, hjong, placeJamo_of_ne ha0]
  | final hdone hcho hjung hjong =>
    have hcho0 := ne_zero_of_choseong hcho
    have hjung0 := ne_zero_of_vowel hjung
    have hjong0 := hjong.1.ne_zero
    have hfinish : (Slots.finish s.cho s.jung s.jong).flatMap basicJamo ++
        ({ s with cho := a.2, jung := 0, jong := 0 } : Slots).held =
          s.held ++ letterJamo a.2 := by
      rw [finish_parts hcho hjung (.inr hjong.1)]
      simp [Slots.held, placeJamo_of_ne hcho0, placeJamo_of_ne hjung0, placeJamo_of_ne ha0]
    rw [if_neg hcho0, if_neg hjung0, if_neg hjong0]
    by_cases hmerge : hangulMergeConsonant s.jong a.2 ≠ 0
    · obtain ⟨hjong1, hjamo, hletters⟩ := hangulMergeConsonant_spec hmerge
      rw [if_pos hmerge]
      by_cases hfinal : hangulIsJongseongJamo (hangulMergeConsonant s.jong a.2) = true
      · rw [if_pos hfinal]
        refine ⟨.final hlast hcho hjung ⟨hjamo, .inr ⟨hjong1, ha, hletters⟩⟩, ?_⟩
        simp [Slots.held, placeJamo_of_ne hmerge, placeJamo_of_ne hjong0, hletters]
      · rw [if_neg hfinal]
        exact ⟨.initial hlast (.of_choseong ha _) rfl rfl, hfinish⟩
    · rw [if_neg hmerge]
      exact ⟨.initial hlast (.of_choseong ha _) rfl rfl, hfinish⟩
  | lone hv hdone hcho hjung hjong =>
    exact absurd (hfits (hangulIsConsonant_of_choseong ha) _ _ rfl hv) hdone

/-- A consonant is in front of the first vowel of a syllable. -/
lemma VowelSlot.of_afterConsonant {v : Key} {done : List Key} (h : AfterConsonant done) :
    VowelSlot v.2 v done :=
  .inl ⟨rfl, h⟩

/-- **A vowel that does not go with the syllable in front of it** has no initial consonant. -/
lemma not_hasInitial_of_slot {jung : ℕ} {v a : Key} {done : List Key} (hv : hangulIsVowel v.2)
    (hslot : VowelSlot jung v done) (hmerge : hangulMergeVowel jung a.2 = 0) :
    ¬ HasInitial a (v :: done) := by
  rintro (hcons | ⟨u, rest, heq, hne, hcons⟩)
  · exact not_afterConsonant hv hcons
  · obtain ⟨rfl, rfl⟩ := List.cons.inj heq
    rcases hslot with ⟨rfl, -⟩ | ⟨w, rest, rfl, hwv, -, -⟩
    · exact hne hmerge
    · exact not_afterConsonant (hangulMergeVowel_spec hwv).1 hcons

/-- **A vowel that goes with the syllable in front of it** is the second part of its vowel. -/
lemma VowelSlot.merge {jung : ℕ} {v a : Key} {done : List Key} (hslot : VowelSlot jung v done)
    (hmerge : hangulMergeVowel jung a.2 ≠ 0) :
    VowelSlot (hangulMergeVowel jung a.2) a (v :: done) := by
  rcases hslot with ⟨rfl, hcons⟩ | ⟨w, rest, rfl, hwv, rfl, hcons⟩
  · exact .inr ⟨v, done, rfl, hmerge, rfl, hcons⟩
  · exact absurd ((hangulMergeVowel_spec hwv).2.2.2 a.2) hmerge

/-- A vowel behind a vowel without an initial consonant has none either. -/
lemma not_hasInitial_cons {v a : Key} {done : List Key} (hv : hangulIsVowel v.2)
    (h : ¬ HasInitial v done) : ¬ HasInitial a (v :: done) := by
  rintro (hcons | ⟨u, rest, heq, -, hcons⟩)
  · exact not_afterConsonant hv hcons
  · obtain ⟨rfl, rfl⟩ := List.cons.inj heq
    exact h (.inl hcons)

/-- A vowel behind no letter has no initial consonant. -/
lemma not_hasInitial_of_empty {a : Key} {done : List Key} (h : ∀ k ∈ done.head?, k.2 = 0) :
    ¬ HasInitial a done := by
  rintro (⟨k, hk, hcons⟩ | ⟨u, rest, rfl, hne, -⟩)
  · rw [h k hk] at hcons
    exact absurd hcons (by decide)
  · have hvowel := (hangulMergeVowel_spec hne).1
    rw [h u rfl] at hvowel
    exact absurd hvowel (by decide)

/-- **A vowel**, behind the first test.

**Proof sketch.** By the slots that are in use. A final consonant goes to the next syllable, as a
whole or its second part, and the syllable in front is completed with what is left. -/
lemma vowelSplitted_conserves {done : List Key} {s : Slots} {a : Key} (ha : hangulIsVowel a.2)
    (h : Phase done s) (hcho : s.cho ≠ 0 → hangulIsChoseongJamo s.cho) :
    Conserves done s a (s.vowelSplitted a.2) := by
  have ha0 := ne_zero_of_vowel ha
  have hkey : keyParts a = letterJamo a.2 := if_neg ha0
  rw [Conserves, hkey, Slots.vowelSplitted]
  cases h with
  | empty hdone hcho hjung hjong =>
    rw [if_pos hjung]
    refine ⟨.lone ha (not_hasInitial_of_empty hdone) hcho (.of_vowel ha) hjong, ?_⟩
    simp [Slots.held, hcho, hjung, hjong, placeJamo_of_ne ha0]
  | initial hdone hinitial hjung hjong =>
    rw [if_pos hjung]
    refine ⟨.syllable ha (.of_afterConsonant hdone) (hcho hinitial.1.ne_zero) ha hjong, ?_⟩
    simp [Slots.held, hjung, hjong, placeJamo_of_ne ha0]
  | syllable hv hdone hcho hjung hjong =>
    have hcho0 := ne_zero_of_choseong hcho
    have hjung0 := ne_zero_of_vowel hjung
    rw [if_neg hjung0, if_pos hjong, if_pos hcho0]
    by_cases hmerge : hangulMergeVowel s.jung a.2 ≠ 0
    · obtain ⟨-, hvowel, hletters, -⟩ := hangulMergeVowel_spec hmerge
      rw [if_pos hmerge]
      refine ⟨.syllable ha (hdone.merge hmerge) hcho hvowel hjong, ?_⟩
      simp [Slots.held, hjong, placeJamo_of_ne hmerge, placeJamo_of_ne hjung0, hletters]
    · rw [if_neg hmerge, if_pos hcho0]
      have hlone := not_hasInitial_of_slot hv hdone (not_not.mp hmerge)
      refine ⟨.lone ha hlone rfl (.of_vowel ha) hjong, ?_⟩
      simp [Slots.held, hjong, placeJamo_of_ne ha0, placeJamo_of_ne hcho0, placeJamo_of_ne hjung0,
        basicJamo_join ⟨hcho, hjung, .inl rfl⟩]
  | final hdone hcho hjung hfinal =>
    have hcho0 := ne_zero_of_choseong hcho
    have hjung0 := ne_zero_of_vowel hjung
    have hjong0 := hfinal.1.ne_zero
    rw [if_neg hjung0, if_neg hjong0]
    by_cases hnext : hangulIsChoseongJamo s.jong = true
    · rw [if_pos hnext]
      refine ⟨.syllable ha (.of_afterConsonant hdone) hnext ha rfl, ?_⟩
      simp [Slots.held, placeJamo_of_ne ha0, placeJamo_of_ne hcho0, placeJamo_of_ne hjung0,
        placeJamo_of_ne hjong0, basicJamo_join ⟨hcho, hjung, .inl rfl⟩]
    · obtain ⟨hjong1, hcho2, hletters⟩ := hfinal.2.resolve_left hnext
      have hsplit0 := ne_zero_of_choseong hcho2
      have hjong10 : s.jongSplitted.1 ≠ 0 := by
        have := hangulIsConsonant_iff.mp (hangulIsConsonant_of_jongseong hjong1)
        omega
      rw [if_neg hnext]
      refine ⟨.syllable ha (.of_afterConsonant hdone) hcho2 ha rfl, ?_⟩
      simp [Slots.held, placeJamo_of_ne ha0, placeJamo_of_ne hcho0, placeJamo_of_ne hjung0,
        placeJamo_of_ne hjong0, placeJamo_of_ne hsplit0, placeJamo_of_ne hjong10,
        basicJamo_join ⟨hcho, hjung, .inr hjong1⟩, hletters]
  | lone hv hdone hcho hjung hjong =>
    have hjung0 := hjung.isJamo.ne_zero
    rw [if_neg hjung0, if_pos hjong, if_neg (not_not.mpr hcho)]
    by_cases hmerge : hangulMergeAllvowel s.jung a.2 ≠ 0
    · obtain ⟨hvowel, hletters⟩ := hangulMergeAllvowel_spec hmerge
      rw [if_pos hmerge]
      refine ⟨.lone ha (not_hasInitial_cons hv hdone) hcho hvowel hjong, ?_⟩
      simp [Slots.held, hcho, hjong, placeJamo_of_ne hmerge, placeJamo_of_ne hjung0, hletters]
    · rw [if_neg hmerge, if_neg (not_not.mpr hcho)]
      refine ⟨.lone ha (not_hasInitial_cons hv hdone) hcho (.of_vowel ha) hjong, ?_⟩
      simp [Slots.held, hcho, hjong, placeJamo_of_ne ha0, placeJamo_of_ne hjung0,
        hjung.isJamo.basicJamo]

/-- In every phase but one, an initial consonant can be one. -/
lemma Phase.choseong_or {done : List Key} {s : Slots} (h : Phase done s) :
    (s.cho ≠ 0 → hangulIsChoseongJamo s.cho) ∨
      (AfterConsonant done ∧ InitialSlot s.cho s.choSplitted ∧ s.jung = 0 ∧ s.jong = 0) := by
  cases h with
  | empty hdone hcho hjung hjong => exact .inl fun h => absurd hcho h
  | initial hdone hcho hjung hjong => exact .inr ⟨hdone, hcho, hjung, hjong⟩
  | syllable hv hdone hcho hjung hjong => exact .inl fun _ => hcho
  | final hdone hcho hjung hjong => exact .inl fun _ => hcho
  | lone hv hdone hcho hjung hjong => exact .inl fun h => absurd hcho h

/-- **The first test**: of a compound consonant that cannot be an initial one the second part stays.
-/
lemma splitCho_conserves {done : List Key} {s : Slots} (h : Phase done s) :
    Phase done s.splitCho.1 ∧ (s.splitCho.1.cho ≠ 0 → hangulIsChoseongJamo s.splitCho.1.cho) ∧
      s.splitCho.2.flatMap basicJamo ++ s.splitCho.1.held = s.held := by
  rw [Slots.splitCho]
  by_cases hsplit : s.cho ≠ 0 ∧ ¬ hangulIsChoseongJamo s.cho
  · rcases h.choseong_or with hcho | ⟨hdone, ⟨-, hcho⟩, hjung, hjong⟩
    · exact absurd (hcho hsplit.1) hsplit.2
    · obtain ⟨hfirst, hsecond, hletters⟩ := hcho.resolve_left hsplit.2
      have hsecond0 := ne_zero_of_choseong hsecond
      rw [if_pos hsplit]
      refine ⟨.initial hdone (.of_choseong hsecond _) hjung hjong, fun _ => hsecond, ?_⟩
      simp [Slots.held, hjung, hjong, placeJamo_of_ne hsecond0, placeJamo_of_ne hsplit.1, hletters,
        hfirst.basicJamo]
  · rw [if_neg hsplit]
    exact ⟨h, fun hne => by_contra fun hnot => hsplit ⟨hne, hnot⟩, rfl⟩

/-- **A vowel.** -/
lemma vowel_conserves {done : List Key} {s : Slots} {a : Key} (ha : hangulIsVowel a.2)
    (h : Phase done s) : Conserves done s a (s.vowel a.2) := by
  obtain ⟨hphase, hcho, hsplit⟩ := splitCho_conserves h
  obtain ⟨hnext, hparts⟩ := vowelSplitted_conserves ha hphase hcho
  refine ⟨hnext, ?_⟩
  rw [Slots.vowel, List.flatMap_append, List.append_assoc, hparts, ← List.append_assoc, hsplit]

/-- **The step lemma**: a key that fits moves the conversion to the next phase, and nothing is lost.
-/
lemma keyboard_conserves {done : List Key} {s : Slots} {a : Key} (ha : IsKey a) (h : Phase done s)
    (hfits : KeyFits done a) : Conserves done s a (keyboard.step s a) := by
  rcases ha with ⟨h0, hascii⟩ | hcons | hvowel
  · rw [keyboard_step_zero s h0]
    exact commit_conserves h0 hascii h
  · rw [keyboard_step_consonant s (hangulIsConsonant_of_choseong hcons)]
    exact consonant_conserves hcons hfits h
  · rw [keyboard_step_vowel s (ne_zero_of_vowel hvowel) (not_consonant_of_vowel hvowel)]
    exact vowel_conserves hvowel h

/-! ## What is written when a key does not fit -/

/-- A consonant that has been put in front of a vowel that had been typed before it. -/
def Swapped (c : ℕ) (s : Slots) : Prop := s.cho = c ∧ s.jung ≠ 0

/-- A character that is NUL or begins with a consonant. -/
def BeginsLow (b : ℕ) : Prop := ∃ x xs, basicJamo b = x :: xs ∧ x < 0x314f

/-- **A syllable with a wrong vowel is NUL**; any other begins with its consonant. -/
lemma beginsLow_join {cho : ℕ} (h : hangulIsChoseongJamo cho) (jung jong : ℕ) :
    BeginsLow (hangulJoin cho jung jong) := by
  by_cases hjoin : hangulJoin cho jung jong = 0
  · exact ⟨0, [], by rw [hjoin]; rfl, by omega⟩
  · obtain ⟨x, xs, hx, hlt⟩ := letterJamo_choseong h
    refine ⟨x, xs ++ letterJamo jung ++ placeJamo jong, ?_, hlt⟩
    rw [basicJamo_join (hangulJoin_ne_zero_iff.mp hjoin), hx, List.cons_append, List.cons_append]

/-- What is completed begins with its syllable. -/
lemma finish_beginsLow {cho : ℕ} (h : hangulIsChoseongJamo cho) (jung jong : ℕ) :
    ∃ b l, Slots.finish cho jung jong = b :: l ∧ BeginsLow b := by
  rw [Slots.finish]
  split_ifs
  · exact ⟨_, _, rfl, beginsLow_join h _ _⟩
  · exact ⟨_, _, rfl, beginsLow_join h _ _⟩

/-- What is committed begins with the consonant. -/
lemma commit_swapped {c : ℕ} (hc : hangulIsChoseongJamo c) {s : Slots} (h : Swapped c s) :
    ∃ b l, s.commit.2 = b :: l ∧ BeginsLow b := by
  obtain ⟨rfl, hjung⟩ := h
  rw [Slots.commit, if_pos ⟨ne_zero_of_choseong hc, hjung⟩]
  exact finish_beginsLow hc _ _

/-- **The consonant comes first**: until something is written, it stays where it is.

**Proof sketch.** By the kind of the key. One without a letter, and one that does not go with what
is held, has it written, with the consonant first; all others are put behind it. -/
lemma keyboard_swapped {c : ℕ} (hc : hangulIsChoseongJamo c) (s : Slots) (a : Key)
    (h : Swapped c s) :
    ((keyboard.step s a).2 = [] ∧ Swapped c (keyboard.step s a).1) ∨
      ∃ b l, (keyboard.step s a).2 = b :: l ∧ BeginsLow b := by
  have hcommit := commit_swapped hc h
  obtain ⟨rfl, hjung⟩ := h
  have hcho0 := ne_zero_of_choseong hc
  by_cases h0 : a.2 = 0
  · obtain ⟨b, l, hb, hlow⟩ := hcommit
    rw [keyboard_step_zero s h0]
    exact .inr ⟨b, l ++ [a.1.toNat], by rw [hb, List.cons_append], hlow⟩
  by_cases hcons : hangulIsConsonant a.2 = true
  · rw [keyboard_step_consonant s hcons, Slots.consonant, if_neg hcho0, if_neg hjung]
    by_cases hjong : s.jong = 0
    · rw [if_pos hjong]
      exact .inl ⟨rfl, rfl, hjung⟩
    · rw [if_neg hjong]
      by_cases hmerge : hangulMergeConsonant s.jong a.2 ≠ 0
      · rw [if_pos hmerge]
        split_ifs
        · exact .inl ⟨rfl, rfl, hjung⟩
        · exact .inr (finish_beginsLow hc _ _)
      · rw [if_neg hmerge]
        exact .inr (finish_beginsLow hc _ _)
  · have hsplit : s.splitCho = (s, []) := if_neg fun h => h.2 hc
    rw [keyboard_step_vowel s h0 hcons, Slots.vowel, hsplit, List.nil_append, Slots.vowelSplitted,
      if_neg hjung]
    by_cases hjong : s.jong = 0
    · rw [if_pos hjong, if_pos hcho0]
      by_cases hmerge : hangulMergeVowel s.jung a.2 ≠ 0
      · rw [if_pos hmerge]
        exact .inl ⟨rfl, rfl, hmerge⟩
      · rw [if_neg hmerge, if_pos hcho0]
        exact .inr ⟨_, _, rfl, beginsLow_join hc _ _⟩
    · rw [if_neg hjong]
      split_ifs
      · exact .inr ⟨_, _, rfl, beginsLow_join hc _ _⟩
      · exact .inr ⟨_, _, rfl, beginsLow_join hc _ _⟩

/-- **A consonant that does not fit** is put in front of the vowel that is held: the next basic
letter to be written is not the one that is due.

**Proof sketch.** By the phase of the keyboard. The only one in which a vowel is held without an
initial consonant, and a consonant does not fit, puts the consonant in front; the next letter to be
written is this consonant, and the one that is due is the vowel. -/
lemma keyboard_loses {done : List Key} {s : Slots} {a : Key} (l : List Key) (ha : IsKey a)
    (h : Phase done s) (hfits : ¬ KeyFits done a) :
    ∃ x xs y ys, x ≠ y ∧ (keyboard.output s (a :: l)).flatMap basicJamo = x :: xs ∧
      s.held ++ (a :: l).flatMap keyParts = y :: ys := by
  rw [KeyFits] at hfits
  push Not at hfits
  obtain ⟨hcons, v, rest, rfl, hv, hnot⟩ := hfits
  cases h with
  | empty hdone hcho hjung hjong =>
    rw [hdone v rfl] at hv
    exact absurd hv (by decide)
  | initial hdone hcho hjung hjong => exact absurd hdone (not_afterConsonant hv)
  | syllable hv' hdone hcho hjung hjong =>
    refine absurd (hdone.imp And.right ?_) hnot
    rintro ⟨u, rest, hrest, hne, -, hlast⟩
    exact ⟨u, rest, hrest, hne, hlast⟩
  | final hdone hcho hjung hjong => exact absurd hdone (not_afterConsonant hv)
  | lone hv' hdone hcho hjung hjong =>
    have hc : hangulIsChoseongJamo a.2 := by
      rcases ha with ⟨h0, -⟩ | hc | hvowel
      · rw [h0] at hcons
        exact absurd hcons (by decide)
      · exact hc
      · exact absurd hcons (not_consonant_of_vowel hvowel)
    have hstep : keyboard.step s a = ({ s with cho := a.2 }, []) :=
      (keyboard_step_consonant s hcons).trans (if_pos hcho)
    have hswapped : Swapped a.2 { s with cho := a.2 } := ⟨rfl, hjung.isJamo.ne_zero⟩
    obtain ⟨b, bs, hout, x, xs, hx, hlow⟩ := Transducer.exists_head (keyboard_swapped hc)
      (fun _ => commit_swapped hc) hswapped l
    obtain ⟨y, ys, hy, hhigh⟩ := letterJamo_anyVowel hjung
    refine ⟨x, xs ++ bs.flatMap basicJamo, y, ys ++ (a :: l).flatMap keyParts, by omega, ?_, ?_⟩
    · rw [Transducer.output, hstep, List.nil_append, hout, List.flatMap_cons, hx, List.cons_append]
    · rw [Slots.held, hcho, hjong, placeJamo_zero, placeJamo_of_ne hjung.isJamo.ne_zero, hy,
        List.nil_append, List.append_nil, List.cons_append]

/-- **Which keys are kept**: the characters have the letters of the keys exactly if every key fits.
-/
lemma keyboard_keeps_iff {l : List Key} (hl : ∀ a ∈ l, IsKey a) :
    (keyboard.output Slots.init l).flatMap basicJamo = l.flatMap keyParts ↔
      Transducer.Along KeyFits [] l := by
  have hinit : Phase [] Slots.init := .empty (fun _ h => absurd h (by simp)) rfl rfl rfl
  exact Transducer.conserves_iff (fun _ _ _ ha h hfits => keyboard_conserves ha h hfits)
    (fun _ _ _ l ha h hfits => keyboard_loses l ha h hfits) (fun _ _ h => commit_parts h) hinit hl

end Meowbot

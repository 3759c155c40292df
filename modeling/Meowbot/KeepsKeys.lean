import Meowbot.Keyboard

set_option relaxedAutoImplicit false
set_option autoImplicit false

/-!
# When the keyboard conversion keeps all keys

The characters that the conversion writes are NUL or encoded as they should be, so the result is a
text, and its characters are known. Those that are ASCII are as many as the keys for which the
search has found no letter: if the memory behind the table turns a key into a letter, one is
missing.

## Main definitions

* `Meowbot.WideSlots` — the slots hold letters, whatever is behind the table.
* `Meowbot.Found` — a key with the letter that the search finds.

## Main results

* `Meowbot.qwertyTo2bulLoop_eq` — the loop is the transducer.
* `Meowbot.keepsKeys_iff` — when the conversion keeps all keys.
-/

namespace Meowbot

/-! ## Which characters there are -/

/-- NUL, or a character behind ASCII and in front of the surrogates. -/
def IsWide (c : ℕ) : Prop := c = 0 ∨ (0x80 ≤ c ∧ c < 0xD800)

/-- All slots are empty or hold such characters. -/
structure WideSlots (s : Slots) : Prop where
  cho : IsWide s.cho
  jung : IsWide s.jung
  jong : IsWide s.jong
  choSplitted : IsWide s.choSplitted.1 ∧ IsWide s.choSplitted.2
  jongSplitted : IsWide s.jongSplitted.1 ∧ IsWide s.jongSplitted.2

/-- A letter of a key, or of whatever is behind the table. -/
def IsLetter (c : ℕ) : Prop := hangulIsConsonant c ∨ hangulIsVowel c

/-- A letter is behind ASCII. -/
lemma IsJamo.isWide {c : ℕ} (h : IsJamo c) : IsWide c := by
  obtain ⟨hge, hle⟩ := h
  exact .inr ⟨by omega, by omega⟩

/-- A letter is a letter. -/
lemma IsLetter.isJamo {c : ℕ} (h : IsLetter c) : IsJamo c := by
  rw [IsLetter, hangulIsConsonant_iff, hangulIsVowel_iff] at h
  exact ⟨by omega, by omega⟩

/-- A syllable is behind ASCII. -/
lemma hangulJoin_isWide (cho jung jong : ℕ) : IsWide (hangulJoin cho jung jong) := by
  by_cases h : hangulJoin cho jung jong = 0
  · exact .inl h
  · have := hangulJoin_range (hangulJoin_ne_zero_iff.mp h)
    exact .inr ⟨by omega, by omega⟩

/-- What is completed is behind ASCII. -/
lemma finish_isWide (cho jung : ℕ) {jong : ℕ} (h : IsWide jong) :
    ∀ b ∈ Slots.finish cho jung jong, IsWide b := by
  rw [Slots.finish]
  split_ifs <;> simp [hangulJoin_isWide, h]

/-- What is committed is behind ASCII. -/
lemma commit_isWide {s : Slots} (h : WideSlots s) :
    WideSlots s.commit.1 ∧ ∀ b ∈ s.commit.2, IsWide b := by
  refine ⟨{ h with cho := .inl rfl, jung := .inl rfl, jong := .inl rfl }, ?_⟩
  rw [Slots.commit]
  split_ifs
  · exact finish_isWide _ _ h.jong
  · simpa using h.cho
  · simpa using h.jung
  · simp

/-- **A consonant** writes characters behind ASCII. -/
lemma consonant_isWide {s : Slots} {ch : ℕ} (hch : IsWide ch) (h : WideSlots s) :
    WideSlots (s.consonant ch).1 ∧ ∀ b ∈ (s.consonant ch).2, IsWide b := by
  have hfinish := finish_isWide s.cho s.jung h.jong
  rw [Slots.consonant]
  dsimp only
  split_ifs with hcho hjung hall hjong hcons hfinal
  · exact ⟨{ h with cho := hch }, by simp⟩
  · exact ⟨{ h with
      cho := (hangulMergeAllconsonant_spec hall).1.isWide
      choSplitted := ⟨h.cho, hch⟩ }, by simp⟩
  · exact ⟨{ h with cho := hch }, by simpa using h.cho⟩
  · exact ⟨{ h with jong := hch }, by simp⟩
  · exact ⟨{ h with
      jong := (hangulMergeConsonant_spec hcons).2.1.isWide
      jongSplitted := ⟨h.jong, hch⟩ }, by simp⟩
  · exact ⟨{ h with cho := hch, jung := .inl rfl, jong := .inl rfl }, hfinish⟩
  · exact ⟨{ h with cho := hch, jung := .inl rfl, jong := .inl rfl }, hfinish⟩

/-- **A vowel** writes characters behind ASCII.

**Proof sketch.** A vowel first splits what stands in front of it, then goes to its place or starts
a new character. What is written in each of these cases is put together from letters, and what is
kept are letters, too. -/
lemma vowel_isWide {s : Slots} {ch : ℕ} (hch : IsWide ch) (h : WideSlots s) :
    WideSlots (s.vowel ch).1 ∧ ∀ b ∈ (s.vowel ch).2, IsWide b := by
  obtain ⟨hs, hfirst⟩ : WideSlots s.splitCho.1 ∧ ∀ b ∈ s.splitCho.2, IsWide b := by
    rw [Slots.splitCho]
    split_ifs
    · exact ⟨{ h with cho := h.choSplitted.2 }, by simpa using h.choSplitted.1⟩
    · exact ⟨h, by simp⟩
  rw [Slots.vowel]
  generalize s.splitCho = r at hs hfirst
  obtain ⟨hnext, hsecond⟩ : WideSlots (r.1.vowelSplitted ch).1 ∧
      ∀ b ∈ (r.1.vowelSplitted ch).2, IsWide b := by
    rw [Slots.vowelSplitted]
    dsimp only
    split_ifs with hjung hjong hcho hvowel hall
    · exact ⟨{ hs with jung := hch }, by simp⟩
    · have hmerged := (IsAnyVowel.of_vowel (hangulMergeVowel_spec hvowel).2.1).isJamo.isWide
      exact ⟨{ hs with jung := hmerged }, by simp⟩
    · exact ⟨{ hs with cho := .inl rfl, jung := hch }, by simpa using hangulJoin_isWide _ _ _⟩
    · have hmerged := (hangulMergeAllvowel_spec hall).1.isJamo.isWide
      exact ⟨{ hs with jung := hmerged }, by simp⟩
    · exact ⟨{ hs with jung := hch }, by simpa using hs.jung⟩
    · exact ⟨{ hs with cho := hs.jong, jung := hch, jong := .inl rfl },
        by simpa using hangulJoin_isWide _ _ _⟩
    · exact ⟨{ hs with cho := hs.jongSplitted.2, jung := hch, jong := .inl rfl },
        by simpa using hangulJoin_isWide _ _ _⟩
  exact ⟨hnext, List.forall_mem_append.mpr ⟨hfirst, hsecond⟩⟩

/-! ## The bytes of the result -/

/-- **The bytes of characters** in front of the surrogates. -/
lemma utf8Chars_eq {cs : List ℕ} (h : ∀ c ∈ cs, c < 0xD800) :
    utf8Chars cs = utf8Text (cs.map Char.ofNat) := by
  have hchar : ∀ c ∈ cs, utf8EncodeS (UInt32.ofNat c) = String.utf8EncodeChar (Char.ofNat c) := by
    intro c hc
    have htoNat : (Char.ofNat c).val.toNat = c := toNat_charOfNat (h c hc)
    have hval : (Char.ofNat c).val = UInt32.ofNat c := by
      rw [← UInt32.toNat_inj, htoNat, UInt32.toNat_ofNat', Nat.mod_eq_of_lt]
      exact (h c hc).trans (by decide)
    have hlt := h c hc
    rw [← hval]
    exact (utf8EncodeS_char_iff _).mpr (.inl (by omega))
  rw [utf8Chars, utf8Text, List.flatMap_map]
  exact List.flatMap_congr hchar

/-- An ASCII character is appended as it is. -/
lemma utf8Chars_ascii {c : Byte} (h : c.toNat < 0x80) : utf8Chars [c.toNat] = [c] := by
  have hall : ∀ n < 0x80, utf8EncodeS (UInt32.ofNat n) = [UInt8.ofNat n] := by decide
  rw [utf8Chars, List.flatMap_singleton, hall _ h, UInt8.ofNat_toNat]

/-- The bytes of characters and more characters. -/
lemma utf8Chars_append (cs cs' : List ℕ) : utf8Chars (cs ++ cs') = utf8Chars cs ++ utf8Chars cs' :=
  List.flatMap_append

/-- A key with the letter that the search finds. -/
def Found (past : List KeyRow) (a : Key) : Prop :=
  qwertyTo2bulOnechar past a.1 = some a.2 ∧ (a.2 = 0 ∨ IsLetter a.2)

/-- **The loop is the transducer**, if the search finds letters.

**Proof sketch.** By induction on the keys. A key without a letter commits what is held and is
copied; a key with one is a step of the transducer, in the branch for a consonant or in that for a
vowel. -/
lemma qwertyTo2bulLoop_eq {past : List KeyRow} {l : List Key}
    (hl : ∀ a ∈ l, Found past a ∧ a.1.toNat < 0x80) (s : Slots) (result : Bytes) :
    qwertyTo2bulLoop past s result (l.map Prod.fst) =
      some (result ++ utf8Chars (keyboard.output s l)) := by
  induction l generalizing s result with
  | nil => rfl
  | cons a l ih =>
    obtain ⟨⟨⟨hfound, hletter⟩, hascii⟩, hrest⟩ := List.forall_mem_cons.mp hl
    rw [List.map_cons, qwertyTo2bulLoop, hfound, Transducer.output, utf8Chars_append]
    dsimp only
    by_cases h0 : a.2 = 0
    · rw [if_pos h0, ih hrest, keyboard_step_zero s h0, utf8Chars_append, utf8Chars_ascii hascii]
      simp only [List.append_assoc]
    · rw [if_neg h0]
      by_cases hcons : hangulIsConsonant a.2 = true
      · rw [if_pos hcons, ih hrest, keyboard_step_consonant s hcons, List.append_assoc]
      · have hvowel := (hletter.resolve_left h0).resolve_left hcons
        rw [if_neg hcons, if_pos hvowel, ih hrest, keyboard_step_vowel s h0 hcons,
          List.append_assoc]

/-- **Only letters are found**, if anything comes of the loop.

**Proof sketch.** By induction on the keys. A key for which the table gives neither nothing nor a
letter ends the loop without a result. -/
lemma exists_found {past : List KeyRow} {p result out : Bytes} {s : Slots}
    (h : qwertyTo2bulLoop past s result p = some out) :
    ∃ l : List Key, l.map Prod.fst = p ∧ ∀ a ∈ l, Found past a := by
  induction p generalizing s result with
  | nil => exact ⟨[], rfl, by simp⟩
  | cons c p ih =>
    rw [qwertyTo2bulLoop] at h
    cases hfound : qwertyTo2bulOnechar past c with
    | none =>
      rw [hfound] at h
      exact absurd h (by simp)
    | some ch =>
      rw [hfound] at h
      dsimp only at h
      obtain ⟨hletter, s', result', hloop⟩ : (ch = 0 ∨ IsLetter ch) ∧
          ∃ s' result', qwertyTo2bulLoop past s' result' p = some out := by
        split_ifs at h with h0 hconsonant hvowel
        · exact ⟨.inl h0, _, _, h⟩
        · exact ⟨.inr (.inl hconsonant), _, _, h⟩
        · exact ⟨.inr (.inr hvowel), _, _, h⟩
      obtain ⟨l, rfl, hall⟩ := ih hloop
      exact ⟨(c, ch) :: l, rfl, List.forall_mem_cons.mpr ⟨⟨hfound, hletter⟩, hall⟩⟩

/-! ## All keys -/

/-- A key with its own letter. -/
def letterKey (c : Byte) : Key := (c, keyLetter c)

/-- An ASCII character but NUL. -/
def isAscii (c : ℕ) : Bool := 0 < c && c < 0x80

/-- The letter of a key is a letter. -/
lemma keyLetter_isJamo {c : Byte} (h : keyLetter c ≠ 0) : IsJamo (keyLetter c) := by
  rcases (keyLetter_spec c).resolve_left h with h | h
  · exact .of_choseong h
  · exact (IsAnyVowel.of_vowel h).isJamo

/-- The letter of a key is behind ASCII. -/
lemma keyLetter_ge {c : Byte} (h : keyLetter c ≠ 0) : 0x80 ≤ keyLetter c :=
  (by decide : 0x80 ≤ 0x3131).trans (keyLetter_isJamo h).1

/-- The own letters of keys are letters, and what they are made of is what is expected. -/
lemma letterKey_spec {c : Byte} (hc : c.toNat < 0x80) :
    IsKey (letterKey c) ∧ keyParts (letterKey c) = keyJamo c := by
  have hspec := keyLetter_spec c
  refine ⟨?_, ?_⟩
  · rcases hspec with h0 | h
    · exact .inl ⟨h0, hc⟩
    · exact .inr h
  · rw [keyParts, keyJamo, letterKey]
    by_cases h0 : keyLetter c = 0
    · rw [if_pos h0, if_pos h0]
    · rw [if_neg h0, if_neg h0, (keyLetter_isJamo h0).basicJamo]

/-- A search that finds zero or a letter found the own letter of a key with one. -/
lemma keyLetter_eq_zero {past : List KeyRow} {a : Key} (hc : a.1 ≠ 0) (h : Found past a)
    (h0 : a.2 = 0) : keyLetter a.1 = 0 := by
  have hfound := h.1
  rw [qwertyTo2bulOnechar_eq past hc, h0] at hfound
  by_contra hne
  rw [if_neg hne] at hfound
  exact hne (Option.some.inj hfound)

/-- The ASCII characters among the letters of a character. -/
lemma countP_basicJamo (c : ℕ) : (basicJamo c).countP isAscii = if isAscii c then 1 else 0 := by
  rcases Nat.lt_or_ge c 0x80 with h | h
  · rw [basicJamo_of_lt (by omega), letterJamo_of_lt (by omega), List.countP_singleton]
  · have hc : ¬ isAscii c := by
      simp only [isAscii, Bool.and_eq_true, decide_eq_true_eq]
      omega
    rw [if_neg hc, List.countP_eq_zero]
    intro x hx
    have := basicJamo_ge h x hx
    simp only [isAscii, Bool.and_eq_true, decide_eq_true_eq]
    omega

/-- The ASCII characters among the letters of a key. -/
lemma countP_keyJamo {c : Byte} (hc : 0 < c.toNat ∧ c.toNat < 0x80) :
    (keyJamo c).countP isAscii = if keyLetter c = 0 then 1 else 0 := by
  rw [keyJamo]
  split_ifs with h0
  · rw [List.countP_singleton, if_pos]
    simpa [isAscii] using hc
  · have hge := keyLetter_ge h0
    rw [countP_basicJamo, if_neg]
    simp only [isAscii, Bool.and_eq_true, decide_eq_true_eq]
    omega

/-- Counting what lists are made of. -/
lemma countP_flatMap_of {α β : Type} {f : α → List β} {p : β → Bool} {q : α → Bool} {l : List α}
    (h : ∀ a ∈ l, (f a).countP p = if q a then 1 else 0) : (l.flatMap f).countP p = l.countP q := by
  induction l with
  | nil => rfl
  | cons a l ih =>
    obtain ⟨ha, hl⟩ := List.forall_mem_cons.mp h
    rw [List.flatMap_cons, List.countP_append, ha, ih hl, List.countP_cons, Nat.add_comm]

/-- If as many elements are of a kind as of another kind that the first one is part of, the kinds
are one. -/
lemma forall_of_countP_eq {α : Type} {p q : α → Bool} {l : List α} (hpq : ∀ a ∈ l, p a → q a)
    (h : l.countP p = l.countP q) : ∀ a ∈ l, q a → p a := by
  induction l with
  | nil => simp
  | cons a l ih =>
    obtain ⟨ha, hl⟩ := List.forall_mem_cons.mp hpq
    have hle := List.countP_mono_left hl
    rw [List.countP_cons, List.countP_cons] at h
    cases hp : p a <;> cases hq : q a
    · refine List.forall_mem_cons.mpr ⟨by simp [hq], ih hl ?_⟩
      simpa [hp, hq] using h
    · simp only [hp, hq, if_true, Bool.false_eq_true, if_false] at h
      omega
    · exact absurd (ha hp) (by simp [hq])
    · refine List.forall_mem_cons.mpr ⟨fun _ => hp, ih hl ?_⟩
      simpa [hp, hq] using h

/-- The characters that are written are in front of the surrogates, and the ASCII characters among
them are as many as the keys for which no letter has been found.

**Proof sketch.** By induction on the keys, with an invariant: the slots hold letters only. A key
without a letter is written as it is, which is one ASCII character; all others write characters
behind ASCII. -/
lemma keyboard_output_spec {past : List KeyRow} {l : List Key}
    (hl : ∀ a ∈ l, Found past a ∧ 0 < a.1.toNat ∧ a.1.toNat < 0x80) :
    (∀ c ∈ keyboard.output Slots.init l, c < 0xD800) ∧
      (keyboard.output Slots.init l).countP isAscii = l.countP fun a => a.2 = 0 := by
  have hinit : WideSlots Slots.init := ⟨.inl rfl, .inl rfl, .inl rfl, ⟨.inl rfl, .inl rfl⟩,
    ⟨.inl rfl, .inl rfl⟩⟩
  have hlt {cs : List ℕ} (h : ∀ c ∈ cs, IsWide c) : ∀ c ∈ cs, c < 0xD800 := fun c hc => by
    rcases h c hc with h | h <;> omega
  have hcount {cs : List ℕ} (h : ∀ c ∈ cs, IsWide c) : cs.countP isAscii = 0 := by
    refine List.countP_eq_zero.mpr fun c hc => ?_
    rcases h c hc with h | h <;> simp [isAscii] <;> omega
  have hstep (s : Slots) (a : Key) (ha : Found past a ∧ 0 < a.1.toNat ∧ a.1.toNat < 0x80)
      (hs : WideSlots s) : WideSlots (keyboard.step s a).1 ∧
        (∀ c ∈ (keyboard.step s a).2, c < 0xD800) ∧
        (keyboard.step s a).2.countP isAscii = if a.2 = 0 then 1 else 0 := by
    obtain ⟨⟨-, hletter⟩, hpos, hascii⟩ := ha
    by_cases h0 : a.2 = 0
    · obtain ⟨hnext, hout⟩ := commit_isWide hs
      rw [keyboard_step_zero s h0, if_pos h0, List.countP_append, hcount hout]
      refine ⟨hnext, List.forall_mem_append.mpr ⟨hlt hout, by simp; omega⟩, ?_⟩
      simp [isAscii, hpos, hascii]
    · have hwide := (hletter.resolve_left h0).isJamo.isWide
      rw [if_neg h0]
      by_cases hcons : hangulIsConsonant a.2 = true
      · obtain ⟨hnext, hout⟩ := consonant_isWide hwide hs
        rw [keyboard_step_consonant s hcons]
        exact ⟨hnext, hlt hout, hcount hout⟩
      · obtain ⟨hnext, hout⟩ := vowel_isWide hwide hs
        rw [keyboard_step_vowel s h0 hcons]
        exact ⟨hnext, hlt hout, hcount hout⟩
  constructor
  · exact Transducer.forall_output (fun s a ha hs => ⟨(hstep s a ha hs).1, (hstep s a ha hs).2.1⟩)
      (fun s hs => hlt (commit_isWide hs).2) hinit hl
  · exact Transducer.countP_output
      (fun s a ha hs => ⟨(hstep s a ha hs).1, by simpa using (hstep s a ha hs).2.2⟩)
      (fun s hs => hcount (commit_isWide hs).2) hinit hl

/-- The last key of some keys. -/
lemma afterConsonant_iff (pre : Bytes) :
    AfterConsonant (pre.map letterKey).reverse ↔ EndsInConsonant pre := by
  rw [AfterConsonant, EndsInConsonant, List.head?_reverse, List.getLast?_map]
  cases pre.getLast? with
  | none => simp
  | some k => simp [letterKey]

/-- **An initial consonant** in front of a vowel key. -/
lemma hasInitial_iff (pre : Bytes) (v : Byte) :
    HasInitial (letterKey v) (pre.map letterKey).reverse ↔ EndsInConsonant pre ∨
      ∃ pre' u, pre = pre' ++ [u] ∧ hangulMergeVowel (keyLetter u) (keyLetter v) ≠ 0 ∧
        EndsInConsonant pre' := by
  rw [HasInitial, afterConsonant_iff]
  refine or_congr_right ⟨?_, ?_⟩
  · rintro ⟨u, rest, hrest, hmerge, hcons⟩
    rcases pre.eq_nil_or_concat' with rfl | ⟨pre', u', rfl⟩
    · simp at hrest
    · rw [List.map_append, List.reverse_append] at hrest
      obtain ⟨rfl, rfl⟩ := List.cons.inj hrest
      exact ⟨pre', u', rfl, hmerge, (afterConsonant_iff pre').mp hcons⟩
  · rintro ⟨pre', u, rfl, hmerge, hcons⟩
    refine ⟨letterKey u, (pre'.map letterKey).reverse, ?_, hmerge,
      (afterConsonant_iff pre').mpr hcons⟩
    rw [List.map_append, List.reverse_append]
    rfl

/-- **The condition on the keys** is that each of them fits.

**Proof sketch.** Both say something for each vowel that comes directly behind a vowel and for each
place of the keys; the keys in front of the place are those that are done, in reverse. -/
lemma vowelsFit_iff (str : Bytes) :
    VowelsFit str ↔ Transducer.Along KeyFits [] (str.map letterKey) := by
  rw [Transducer.along_iff]
  constructor
  · intro h pre a post hl hcons v rest hdone hv
    obtain ⟨pre, post, rfl, rfl, hpost⟩ := List.map_eq_append_iff.mp hl
    obtain ⟨c, post, rfl, rfl, rfl⟩ := List.map_eq_cons_iff.mp hpost
    rw [List.append_nil] at hdone
    rcases pre.eq_nil_or_concat' with rfl | ⟨pre', u, rfl⟩
    · simp at hdone
    · rw [List.map_append, List.reverse_append] at hdone
      obtain ⟨rfl, rfl⟩ := List.cons.inj hdone
      exact (hasInitial_iff pre' u).mpr (h pre' u c post (by simp) hv hcons)
  · intro h pre v c post hstr hv hcons
    refine (hasInitial_iff pre v).mp ?_
    refine h (pre.map letterKey ++ [letterKey v]) (letterKey c) (post.map letterKey) ?_ hcons
      (letterKey v) (pre.map letterKey).reverse ?_ hv
    · rw [hstr]
      simp
    · simp

/-- NUL is not a letter of a key. -/
lemma zero_notMem_keyJamo {c : Byte} (hc : 0 < c.toNat) : 0 ∉ keyJamo c := by
  rw [keyJamo]
  split_ifs with h0
  · rw [List.mem_singleton]
    omega
  · intro hmem
    exact absurd (basicJamo_ge (keyLetter_ge h0) 0 hmem) (by decide)

section Keys

variable {past : List KeyRow} {str : Bytes} {l : List Key}

/-- **The result for keys with the letters that are found.** -/
lemma qwertyTo2bul_eq (hstr : ∀ c ∈ str, 0 < c.toNat ∧ c.toNat < 0x80)
    (hkeys : l.map Prod.fst = str) (hl : ∀ a ∈ l, Found past a) :
    qwertyTo2bul past str = some (utf8Text ((keyboard.output Slots.init l).map Char.ofNat)) ∧
      (∀ c ∈ keyboard.output Slots.init l, c < 0xD800) ∧
      (keyboard.output Slots.init l).countP isAscii = l.countP fun a => a.2 = 0 := by
  have hnul : 0 ∉ str := fun h => absurd (hstr 0 h).1 (by decide)
  have hl' : ∀ a ∈ l, Found past a ∧ 0 < a.1.toNat ∧ a.1.toNat < 0x80 := by
    intro a ha
    refine ⟨hl a ha, hstr a.1 ?_⟩
    rw [← hkeys]
    exact List.mem_map_of_mem ha
  have hspec := keyboard_output_spec hl'
  refine ⟨?_, hspec⟩
  rw [qwertyTo2bul, cstr_eq_self hnul, ← hkeys,
    qwertyTo2bulLoop_eq fun a ha => ⟨hl a ha, (hl' a ha).2.2⟩, utf8Chars_eq hspec.1,
    List.nil_append]

/-- **Keys are kept** if and only if the characters have their letters: then none of them is NUL.

**Proof sketch.** What is written is a text with these characters, none of which is NUL if the
letters are kept, as a NUL has no letters and the keys have. -/
lemma keepsKeys_iff_parts (hstr : ∀ c ∈ str, 0 < c.toNat ∧ c.toNat < 0x80)
    (hkeys : l.map Prod.fst = str) (hl : ∀ a ∈ l, Found past a) :
    KeepsKeys past str ↔
      (keyboard.output Slots.init l).flatMap basicJamo = str.flatMap keyJamo := by
  obtain ⟨hout, hlt, -⟩ := qwertyTo2bul_eq hstr hkeys hl
  have htoNat : ∀ c ∈ keyboard.output Slots.init l, (Char.ofNat c).toNat = c :=
    fun c hc => toNat_charOfNat (hlt c hc)
  have hparts :
      (((keyboard.output Slots.init l).map Char.ofNat).flatMap fun c => basicJamo c.toNat) =
        (keyboard.output Slots.init l).flatMap basicJamo := by
    rw [List.flatMap_map]
    exact List.flatMap_congr fun c hc => by rw [htoNat c hc]
  constructor
  · rintro ⟨text, htext, hkeep, -⟩
    rw [hout] at htext
    rw [← hkeep, ← utf8Text_injective (Option.some.inj htext), hparts]
  · intro hkeep
    refine ⟨_, hout, hparts.trans hkeep, fun ch hch h0 => ?_⟩
    obtain ⟨c, hc, rfl⟩ := List.mem_map.mp hch
    rw [htoNat c hc] at h0
    have hmem : 0 ∈ str.flatMap keyJamo := by
      rw [← hkeep, List.mem_flatMap]
      exact ⟨c, hc, by rw [h0]; decide⟩
    obtain ⟨k, hk, hzero⟩ := List.mem_flatMap.mp hmem
    exact zero_notMem_keyJamo (hstr k hk).1 hzero

/-- **A character that is taken for a letter is missing** among those of the result.

**Proof sketch.** The characters that are written for keys without a letter are ASCII, and no others
are. Counting these in the result and among the keys shows that as many keys have been taken for no
letter as there are. -/
lemma scanEnds_of_keepsKeys (hstr : ∀ c ∈ str, 0 < c.toNat ∧ c.toNat < 0x80)
    (h : KeepsKeys past str) : ScanEnds past str := by
  obtain ⟨text, htext, -⟩ := id h
  have hnul : 0 ∉ str := fun h => absurd (hstr 0 h).1 (by decide)
  rw [qwertyTo2bul, cstr_eq_self hnul] at htext
  obtain ⟨l, hkeys, hl⟩ := exists_found htext
  obtain ⟨-, -, hcount⟩ := qwertyTo2bul_eq hstr hkeys hl
  have hkeep := (keepsKeys_iff_parts hstr hkeys hl).mp h
  have hne : ∀ a ∈ l, a.1 ∈ str := fun a ha => by
    rw [← hkeys]
    exact List.mem_map_of_mem ha
  have hne0 : ∀ a ∈ l, a.1 ≠ 0 := fun a ha h0 => hnul (h0 ▸ hne a ha)
  -- as many keys are taken for no letter as are none
  have hall : l.countP (fun a => a.2 = 0) = l.countP (fun a => keyLetter a.1 = 0) := by
    have hleft := countP_flatMap_of (p := isAscii) (q := isAscii) (f := basicJamo)
      (l := keyboard.output Slots.init l) fun c _ => countP_basicJamo c
    have hright := countP_flatMap_of (p := isAscii) (q := fun c => keyLetter c = 0) (f := keyJamo)
      (l := str) fun c hc => by simpa using countP_keyJamo (hstr c hc)
    rw [← hcount, ← hleft, hkeep, hright, ← hkeys, List.countP_map]
    rfl
  have hfound := forall_of_countP_eq (fun a ha h0 => by
    simpa using keyLetter_eq_zero (hne0 a ha) (hl a ha) (by simpa using h0)) hall
  intro c hc h0
  rw [← hkeys] at hc
  obtain ⟨a, ha, rfl⟩ := List.mem_map.mp hc
  have hscan := (hl a ha).1
  have hzero : a.2 = 0 := by simpa using hfound a ha (by simpa using h0)
  rwa [qwertyTo2bulOnechar_eq past (hne0 a ha), if_pos h0, hzero] at hscan

/-- **With the right letters**, the keys are kept if and only if each of them fits.

**Proof sketch.** The letters that are found are those of the keys. The keyboard as a transducer
conserves the letters as long as each key fits (`Transducer.conserves_iff`), and loses one at the
first key that does not. -/
lemma keepsKeys_iff_vowelsFit (hstr : ∀ c ∈ str, 0 < c.toNat ∧ c.toNat < 0x80)
    (hscan : ScanEnds past str) : KeepsKeys past str ↔ VowelsFit str := by
  have hkeys : (str.map letterKey).map Prod.fst = str := by
    rw [List.map_map]
    exact List.map_id str
  have hfound : ∀ a ∈ str.map letterKey, Found past a := by
    intro a ha
    obtain ⟨c, hc, rfl⟩ := List.mem_map.mp ha
    have hc0 : c ≠ 0 := fun h0 => absurd (hstr c hc).1 (by rw [h0]; decide)
    refine ⟨?_, ?_⟩
    · rw [letterKey, qwertyTo2bulOnechar_eq past hc0]
      split_ifs with h0
      · rw [h0]
        exact hscan c hc h0
      · rfl
    · exact (keyLetter_spec c).imp_right fun h => h.imp_left hangulIsConsonant_of_choseong
  have hisKey : ∀ a ∈ str.map letterKey, IsKey a := by
    intro a ha
    obtain ⟨c, hc, rfl⟩ := List.mem_map.mp ha
    exact (letterKey_spec (hstr c hc).2).1
  have hparts : (str.map letterKey).flatMap keyParts = str.flatMap keyJamo := by
    rw [List.flatMap_map]
    exact List.flatMap_congr fun c hc => (letterKey_spec (hstr c hc).2).2
  rw [keepsKeys_iff_parts hstr hkeys hfound, ← hparts, keyboard_keeps_iff hisKey, vowelsFit_iff]

end Keys

/-- **The conversion keeps every key** of a string of ASCII characters exactly if the search for
each key without a letter ends at a zero behind the table, and each vowel right in front of a
consonant has an initial consonant.

**Proof sketch.** While vowels have their consonants, the slots and what has been written together
are made of the keys. A consonant behind a vowel without one is put in front of it, and then comes
first, or NUL. If the memory behind the table turns a character into a letter, one ASCII character
is missing in the result. -/
theorem keepsKeys_iff (past : List KeyRow) {str : Bytes} (hstr : ∀ c ∈ str, 0 < c ∧ c < 0x80) :
    KeepsKeys past str ↔ ScanEnds past str ∧ VowelsFit str := by
  have hascii : ∀ c ∈ str, 0 < c.toNat ∧ c.toNat < 0x80 := hstr
  constructor
  · intro h
    have hscan := scanEnds_of_keepsKeys hascii h
    exact ⟨hscan, (keepsKeys_iff_vowelsFit hascii hscan).mp h⟩
  · rintro ⟨hscan, hfit⟩
    exact (keepsKeys_iff_vowelsFit hascii hscan).mpr hfit

/-- A word, a character without a letter, and a compound vowel with an initial consonant. -/
theorem keepsKeys_word :
    qwertyTo2bul [(0, 0)] (bytes "dkssud 1rhkd") = some (utf8Text ['안', '녕', ' ', '1', '광']) ∧
      VowelsFit (bytes "dkssud 1rhkd") := by
  have hout : qwertyTo2bul [(0, 0)] (bytes "dkssud 1rhkd") =
      some (utf8Text ['안', '녕', ' ', '1', '광']) := by
    decide +kernel
  have hascii : ∀ c ∈ bytes "dkssud 1rhkd", 0 < c ∧ c < 0x80 := by
    have hall : (bytes "dkssud 1rhkd").all (fun c => 0 < c && c < 0x80) = true := rfl
    simpa using List.all_eq_true.mp hall
  exact ⟨hout, ((keepsKeys_iff [(0, 0)] hascii).mp ⟨_, hout, by decide +kernel, by simp⟩).2⟩

/-- **A vowel in front of a consonant**: the two change places, and become a syllable. An old vowel
makes no syllable at all, and is lost together with the consonant. -/
theorem not_keepsKeys :
    qwertyTo2bul [(0, 0)] (bytes "kr") = some (utf8Text ['가']) ∧
      ¬ KeepsKeys [(0, 0)] (bytes "kr") ∧
      qwertyTo2bul [(0, 0)] (bytes "yir") = some [0] := by
  have hout : qwertyTo2bul [(0, 0)] (bytes "kr") = some (utf8Text ['가']) := by decide +kernel
  refine ⟨hout, ?_, by decide +kernel⟩
  rintro ⟨text, htext, hkeep, -⟩
  rw [hout] at htext
  obtain rfl := utf8Text_injective (Option.some.inj htext)
  exact absurd hkeep (by decide +kernel)

end Meowbot

import Nshmqtt.ByteStrings

/-!
# UTF-8 and its ASCII bytes

A byte below `0x80` stands for itself, and every byte of a longer character is at least
`0x80`.  So a text can be cut at any ASCII byte without cutting a character, and rewriting
ASCII bytes by ASCII bytes neither makes a text valid nor breaks it.
-/

namespace Utf8

open ByteStrings

/-- The bytes of a sequence of characters. -/
def IsUtf8 (s : Bytes) : Prop := ∃ chars : List Char, chars.flatMap String.utf8EncodeChar = s

theorem isUtf8_nil : IsUtf8 [] := ⟨[], rfl⟩

theorem isUtf8_encode (c : Char) : IsUtf8 (String.utf8EncodeChar c) :=
  ⟨[c], List.flatMap_singleton _ _⟩

theorem IsUtf8.append {a b : Bytes} (ha : IsUtf8 a) (hb : IsUtf8 b) : IsUtf8 (a ++ b) := by
  obtain ⟨left, rfl⟩ := ha
  obtain ⟨right, rfl⟩ := hb
  exact ⟨left ++ right, List.flatMap_append⟩

/-- A number from 0x80 on is such a byte. -/
theorem ofNat_ge {n : Nat} (hlow : 0x80 ≤ n) (hhigh : n < 0x100) : 0x80 ≤ UInt8.ofNat n := by
  rw [UInt8.le_iff_toNat_le, UInt8.toNat_ofNat_of_lt' hhigh]
  exact hlow

theorem ofNat_lt {n k : Nat} (hn : n < k) (hk : k < 0x100) : UInt8.ofNat n < UInt8.ofNat k := by
  rw [UInt8.lt_iff_toNat_lt, UInt8.toNat_ofNat_of_lt' hk, UInt8.toNat_ofNat_of_lt' (hn.trans hk)]
  exact hn

/-- A character is one ASCII byte or consists of higher bytes. -/
theorem encode_cases (c : Char) :
    (∃ b < 0x80, String.utf8EncodeChar c = [b]) ∨
      ∀ b ∈ String.utf8EncodeChar c, 0x80 ≤ b := by
  unfold String.utf8EncodeChar
  by_cases hone : c.val.toNat ≤ 0x7f
  · rw [if_pos hone]
    exact Or.inl ⟨_, ofNat_lt (k := 0x80) (by omega) (by decide), rfl⟩
  · right
    rw [if_neg hone]
    intro b hb
    split_ifs at hb
    all_goals
      simp only [List.mem_cons, List.not_mem_nil, or_false] at hb
      rcases hb with rfl | rfl | rfl | rfl <;> exact ofNat_ge (by omega) (by omega)

/-- No character has a byte from `0xf8` on. -/
theorem encode_lt {c : Char} {b : UInt8} (hb : b ∈ String.utf8EncodeChar c) : b < 0xf8 := by
  unfold String.utf8EncodeChar at hb
  extract_lets v at hb
  split_ifs at hb
  all_goals
    simp only [List.mem_cons, List.not_mem_nil, or_false] at hb
    rcases hb with rfl | rfl | rfl | rfl <;>
      exact ofNat_lt (k := 0xf8) (by omega) (by decide)

/-- Every ASCII byte is a character. -/
theorem encode_ascii {b : UInt8} (hb : b < 0x80) :
    String.utf8EncodeChar (Char.ofNat b.toNat) = [b] := by
  have hall : ∀ n < 0x80, String.utf8EncodeChar (Char.ofNat n) = [UInt8.ofNat n] := by
    decide +kernel
  rw [hall b.toNat (UInt8.lt_iff_toNat_lt.mp hb), UInt8.ofNat_toNat]

/-- No byte of a text in UTF-8 is above 0xf7. -/
theorem IsUtf8.lt {s : Bytes} (h : IsUtf8 s) {b : UInt8} (hb : b ∈ s) : b < 0xf8 := by
  obtain ⟨chars, rfl⟩ := h
  obtain ⟨c, -, hc⟩ := List.mem_flatMap.mp hb
  exact encode_lt hc

theorem isUtf8_singleton {b : UInt8} (hb : b < 0x80) : IsUtf8 [b] :=
  encode_ascii hb ▸ isUtf8_encode _

theorem ascii_of_all {s : Bytes} (h : (s.all fun c => decide (c < 0x80)) = true) :
    ∀ c ∈ s, c < 0x80 :=
  fun c hc => of_decide_eq_true (List.all_eq_true.mp h c hc)

/-- **An ASCII byte is never inside a character.** -/
theorem isUtf8_append_cons {a b : Bytes} {c : UInt8} (hc : c < 0x80) :
    IsUtf8 (a ++ c :: b) ↔ IsUtf8 a ∧ IsUtf8 b := by
  constructor
  · intro h
    obtain ⟨chars, h⟩ := h
    induction chars generalizing a with
    | nil => simp at h
    | cons first chars ih =>
        rw [List.flatMap_cons, List.append_eq_append_iff] at h
        rcases h with ⟨more, ha, hrest⟩ | ⟨more, hfirst, hrest⟩
        · -- the character lies before the byte
          obtain ⟨hmore, hb⟩ := ih hrest
          rw [ha]
          exact ⟨(isUtf8_encode first).append hmore, hb⟩
        · cases more with
          | nil =>
              rw [List.append_nil] at hfirst
              obtain ⟨-, hb⟩ := ih (a := []) hrest.symm
              exact ⟨hfirst ▸ isUtf8_encode first, hb⟩
          | cons d more =>
              -- the byte is one of the character's, and so the whole of it
              obtain ⟨rfl, hb⟩ := List.cons.inj hrest
              rcases encode_cases first with ⟨single, -, hsingle⟩ | hhigh
              · rw [hsingle, List.singleton_eq_append_iff] at hfirst
                rcases hfirst with ⟨rfl, hmore⟩ | ⟨-, hmore⟩
                · rw [(List.cons.inj hmore).2] at hb
                  exact ⟨isUtf8_nil, chars, hb.symm⟩
                · cases hmore
              · have hmem := hhigh c (by rw [hfirst]; simp)
                exact absurd hc (UInt8.not_lt.mpr hmem)
  · intro h
    obtain ⟨ha, hb⟩ := h
    exact ha.append ((isUtf8_singleton hc).append hb)

/-- A text may be cut at any ASCII word that is not empty. -/
theorem isUtf8_append_ascii {a b word : Bytes} (hword : ∀ c ∈ word, c < 0x80) (hne : word ≠ []) :
    IsUtf8 (a ++ (word ++ b)) ↔ IsUtf8 a ∧ IsUtf8 b := by
  induction word generalizing a with
  | nil => exact absurd rfl hne
  | cons c word ih =>
      rw [List.cons_append, isUtf8_append_cons (hword c List.mem_cons_self)]
      cases word with
      | nil => rfl
      | cons d word =>
          have hrest := ih (a := []) (fun e he => hword e (List.mem_cons_of_mem _ he)) nofun
          rw [List.nil_append] at hrest
          rw [hrest, and_iff_right isUtf8_nil]

/-- **Rewriting ASCII bytes** by ASCII words neither mends a text nor breaks it. -/
theorem isUtf8_flatMap_iff {f : UInt8 → Bytes}
    (hascii : ∀ c < 0x80, f c ≠ [] ∧ ∀ d ∈ f c, d < 0x80)
    (hhigh : ∀ c, 0x80 ≤ c → f c = [c]) (s : Bytes) : IsUtf8 (s.flatMap f) ↔ IsUtf8 s := by
  -- what is read already stands before the rest
  have hrun : ∀ a : Bytes, IsUtf8 (a ++ s.flatMap f) ↔ IsUtf8 (a ++ s) := by
    induction s with
    | nil => exact fun a => Iff.rfl
    | cons c s ih =>
        intro a
        rw [List.flatMap_cons]
        rcases UInt8.lt_or_le c 0x80 with hc | hc
        · obtain ⟨hne, hword⟩ := hascii c hc
          rw [isUtf8_append_ascii hword hne, isUtf8_append_cons hc]
          exact and_congr_right fun _ => ih []
        · rw [hhigh c hc, List.append_cons a c s, ← List.append_assoc]
          exact ih (a ++ [c])
  exact hrun []

end Utf8

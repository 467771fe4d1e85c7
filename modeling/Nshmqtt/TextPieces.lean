import Mathlib.Data.List.Basic
import Mathlib.Data.List.Infix
import Mathlib.Tactic.Common

/-!
# Texts cut at their tokens

A text is cut into single letters and tokens; each token piece has a number.
A rendering gives every token piece its text, so filling in some of the tokens
is a change of the rendering only.

* `OnlyPieces` says that a token occurs nowhere but where a piece stands for it;
* `exists_pieces` cuts any text whose tokens do not overlap;
* `onlyPieces_fill` keeps `OnlyPieces` when other tokens are filled in, unless a
  value completes the token together with what stands before it, and
  `not_completed` is the other direction.
-/

namespace TextPieces

variable {α : Type*}

/-- A letter, or the token `name` with its number. -/
inductive Piece (α : Type*) where
  | letter (c : α)
  | token (name : List α) (index : Nat)

/-- The text of one piece, when `value` renders the tokens. -/
def Piece.text (value : List α → Nat → List α) : Piece α → List α
  | .letter c => [c]
  | .token name index => value name index

/-- The text of all pieces. -/
def render (value : List α → Nat → List α) (pieces : List (Piece α)) : List α :=
  pieces.flatMap (Piece.text value)

/-- Every token stands for itself. -/
def plain : List α → Nat → List α := fun name _ => name

/-- An occurrence of `name` starts only where a piece stands for it. -/
def OnlyPieces (value : List α → Nat → List α) (name : List α) : List (Piece α) → Prop
  | [] => True
  | piece :: rest =>
      (∀ j < (piece.text value).length, name <+: (render value (piece :: rest)).drop j →
        j = 0 ∧ ∃ index, piece = .token name index) ∧
      OnlyPieces value name rest

/-- The pieces of each token are numbered on from `counts`. -/
def NumberedFrom [DecidableEq α] (counts : List α → Nat) : List (Piece α) → Prop
  | [] => True
  | .letter _ :: rest => NumberedFrom counts rest
  | .token name index :: rest =>
      index = counts name ∧ NumberedFrom (Function.update counts name (index + 1)) rest

/-- All tokens are among `names`. -/
def NamesIn (names : List (List α)) (pieces : List (Piece α)) : Prop :=
  ∀ name index, .token name index ∈ pieces → name ∈ names

/-- No two of `names` occur with a letter in common. -/
def Separate (names : List (List α)) (s : List α) : Prop :=
  ∀ first ∈ names, ∀ second ∈ names, ∀ p q, first <+: s.drop p → second <+: s.drop q →
    p < q → p + first.length ≤ q

variable {value : List α → Nat → List α} {name : List α}

@[simp]
theorem render_nil : render value ([] : List (Piece α)) = [] := rfl

@[simp]
theorem render_cons (piece : Piece α) (rest : List (Piece α)) :
    render value (piece :: rest) = piece.text value ++ render value rest := rfl

@[simp]
theorem render_append (before after : List (Piece α)) :
    render value (before ++ after) = render value before ++ render value after :=
  List.flatMap_append

/-- A later part has no other occurrences, either. -/
theorem OnlyPieces.of_append {before after : List (Piece α)}
    (h : OnlyPieces value name (before ++ after)) : OnlyPieces value name after := by
  induction before with
  | nil => exact h
  | cons piece before ih => exact ih h.2

/-- Where the token occurs, a piece starts. -/
theorem OnlyPieces.exists_piece {pieces : List (Piece α)} (h : OnlyPieces value name pieces)
    (hname : name ≠ []) {p : Nat} (hp : name <+: (render value pieces).drop p) :
    ∃ before index after, pieces = before ++ .token name index :: after ∧
      (render value before).length = p := by
  induction pieces generalizing p with
  | nil => exact absurd (List.prefix_nil.mp (by simpa using hp)) hname
  | cons piece rest ih =>
      by_cases hinside : p < (piece.text value).length
      · obtain ⟨rfl, index, rfl⟩ := h.1 p hinside hp
        exact ⟨[], index, rest, rfl, rfl⟩
      · rw [render_cons, List.drop_append, List.drop_eq_nil_of_le (not_lt.mp hinside),
          List.nil_append] at hp
        obtain ⟨before, index, after, rfl, hlength⟩ := ih h.2 hp
        refine ⟨piece :: before, index, after, rfl, ?_⟩
        rw [render_cons, List.length_append, hlength]
        omega

/-- What is separate in a text is so in its rest. -/
theorem Separate.drop {names : List (List α)} {s : List α} (h : Separate names s) (n : Nat) :
    Separate names (s.drop n) := by
  intro first hfirst second hsecond p q hp hq hlt
  rw [List.drop_drop] at hp hq
  have := h first hfirst second hsecond (n + p) (n + q) hp hq (by omega)
  omega

/-- **A text without overlaps is cut at its tokens.**  No token may start with
another one. -/
theorem exists_pieces [DecidableEq α] {names : List (List α)} (hne : ∀ name ∈ names, name ≠ [])
    (hstarts : ∀ first ∈ names, ∀ second ∈ names, first <+: second → first = second)
    {s : List α} (hseparate : Separate names s) (counts : List α → Nat) :
    ∃ pieces, render plain pieces = s ∧ NumberedFrom counts pieces ∧ NamesIn names pieces ∧
      ∀ name ∈ names, OnlyPieces plain name pieces := by
  induction hn : s.length using Nat.strong_induction_on generalizing s counts with
  | _ n ih =>
      cases s with
      | nil => exact ⟨[], rfl, trivial, nofun, fun _ _ => trivial⟩
      | cons c s =>
          by_cases htoken : ∃ name ∈ names, name <+: c :: s
          · obtain ⟨name, hname, rest, hrest⟩ := htoken
            have hlength : 0 < name.length := List.length_pos_iff.mpr (hne name hname)
            have hdrop : (c :: s).drop name.length = rest := by
              rw [← hrest, List.drop_left]
            obtain ⟨pieces, hrender, hnumbered, hnames, honly⟩ :=
              ih rest.length (by rw [← hn, ← hrest, List.length_append]; omega)
                (hdrop ▸ hseparate.drop name.length)
                (Function.update counts name (counts name + 1)) rfl
            have hall : render plain (.token name (counts name) :: pieces) = c :: s := by
              rw [render_cons, hrender, ← hrest]
              rfl
            refine ⟨.token name (counts name) :: pieces, hall, ⟨rfl, hnumbered⟩, ?_, ?_⟩
            · intro other index hmem
              rcases List.mem_cons.mp hmem with h | hmem
              · cases h
                exact hname
              · exact hnames other index hmem
            · intro other hother
              refine ⟨fun j hj hoccurs => ?_, honly other hother⟩
              rw [hall] at hoccurs
              have hstart : name <+: (c :: s).drop 0 := ⟨rest, hrest⟩
              by_cases hzero : j = 0
              · subst hzero
                refine ⟨rfl, counts name, ?_⟩
                rcases List.prefix_or_prefix_of_prefix hoccurs hstart with h | h
                · rw [hstarts other hother name hname h]
                · rw [hstarts name hname other hother h]
              · have := hseparate name hname other hother 0 j hstart hoccurs (by omega)
                exact absurd hj (by simp only [Piece.text, plain]; omega)
          · obtain ⟨pieces, hrender, hnumbered, hnames, honly⟩ :=
              ih s.length (by rw [← hn, List.length_cons]; omega) (hseparate.drop 1) counts rfl
            have hall : render plain (.letter c :: pieces) = c :: s := by
              rw [render_cons, hrender]
              rfl
            refine ⟨.letter c :: pieces, hall, hnumbered, ?_, ?_⟩
            · intro other index hmem
              rcases List.mem_cons.mp hmem with h | hmem
              · cases h
              · exact hnames other index hmem
            · intro other hother
              refine ⟨fun j hj hoccurs => ?_, honly other hother⟩
              have hzero : j = 0 := by
                simp only [Piece.text, List.length_singleton] at hj
                omega
              subst hzero
              rw [hall] at hoccurs
              exact absurd ⟨other, hother, hoccurs⟩ htoken

/-- Pieces have no letter in common. -/
theorem separate_of_onlyPieces {names : List (List α)} (hne : ∀ name ∈ names, name ≠ [])
    {pieces : List (Piece α)} (h : ∀ name ∈ names, OnlyPieces plain name pieces) :
    Separate names (render plain pieces) := by
  intro first hfirst second hsecond p q hp hq hlt
  obtain ⟨before, index, after, rfl, hlength⟩ :=
    (h first hfirst).exists_piece (hne first hfirst) hp
  by_contra hoverlap
  -- the second occurrence would start inside the first piece, but not at its start
  rw [render_append, List.drop_append, List.drop_eq_nil_of_le (by omega), List.nil_append,
    hlength] at hq
  have hinside := (h second hsecond).of_append.1 (q - p)
    (by simp only [Piece.text, plain]; omega) hq
  omega

section Numbers

variable [DecidableEq α]

/-- How often `name` occurs in front of position `p`. -/
def occurrencesBefore (name s : List α) (p : Nat) : Nat :=
  (List.range p).countP fun j => name.isPrefixOf (s.drop j)

/-- Occurrences are counted part by part. -/
theorem occurrencesBefore_add (name s : List α) (p q : Nat) :
    occurrencesBefore name s (p + q) =
      occurrencesBefore name s p + occurrencesBefore name (s.drop p) q := by
  unfold occurrencesBefore
  rw [List.range_add, List.countP_append, List.countP_map]
  simp only [Function.comp_def, List.drop_drop]

/-- The piece of a token has one occurrence of it. -/
theorem occurrencesBefore_token {index : Nat} {rest : List (Piece α)} (hname : name ≠ [])
    (h : OnlyPieces plain name (.token name index :: rest)) :
    occurrencesBefore name (render plain (.token name index :: rest)) name.length = 1 := by
  have hpositive : 0 < name.length := List.length_pos_iff.mpr hname
  have hlength : name.length = 1 + (name.length - 1) := by omega
  have hlater : (((List.range (name.length - 1)).map (1 + ·)).countP fun j =>
      name.isPrefixOf ((render plain (.token name index :: rest)).drop j)) = 0 := by
    refine List.countP_eq_zero.mpr fun j hj hoccurs => ?_
    obtain ⟨k, hk, rfl⟩ := List.mem_map.mp hj
    have hinside : 1 + k < (Piece.text plain (.token name index)).length := by
      have := List.mem_range.mp hk
      simp only [Piece.text, plain]
      omega
    have := (h.1 (1 + k) hinside (List.isPrefixOf_iff_prefix.mp hoccurs)).1
    omega
  unfold occurrencesBefore
  rw [hlength, List.range_add, List.countP_append, hlater, Nat.add_zero]
  show List.countP _ [0] = 1
  rw [List.countP_singleton, if_pos]
  exact List.isPrefixOf_iff_prefix.mpr ⟨render plain rest, rfl⟩

/-- Any other piece has none. -/
theorem occurrencesBefore_other {piece : Piece α} {rest : List (Piece α)}
    (hpiece : ∀ index, piece ≠ .token name index) (h : OnlyPieces plain name (piece :: rest)) :
    occurrencesBefore name (render plain (piece :: rest)) (piece.text plain).length = 0 := by
  refine List.countP_eq_zero.mpr fun j hj hoccurs => ?_
  obtain ⟨-, index, heq⟩ :=
    h.1 j (List.mem_range.mp hj) (List.isPrefixOf_iff_prefix.mp hoccurs)
  exact hpiece index heq

/-- **The number of a piece** is the number of occurrences in front of it. -/
theorem NumberedFrom.index_eq {counts : List α → Nat} {before after : List (Piece α)}
    {index : Nat} (hnumbered : NumberedFrom counts (before ++ .token name index :: after))
    (hname : name ≠ []) (h : OnlyPieces plain name (before ++ .token name index :: after)) :
    index = counts name + occurrencesBefore name
      (render plain (before ++ .token name index :: after)) (render plain before).length := by
  induction before generalizing counts with
  | nil => exact hnumbered.1
  | cons piece before ih =>
      rw [List.cons_append] at hnumbered h
      have hsplit : occurrencesBefore name
          (render plain (piece :: (before ++ .token name index :: after)))
          ((piece.text plain).length + (render plain before).length) =
          occurrencesBefore name (render plain (piece :: (before ++ .token name index :: after)))
            (piece.text plain).length +
          occurrencesBefore name (render plain (before ++ .token name index :: after))
            (render plain before).length := by
        rw [occurrencesBefore_add, render_cons, List.drop_left]
      rw [List.cons_append, render_cons piece before, List.length_append, hsplit]
      by_cases hsame : ∃ number, piece = .token name number
      · obtain ⟨number, rfl⟩ := hsame
        have hrest := ih hnumbered.2 h.2
        have hone := occurrencesBefore_token hname h
        rw [Function.update_self, hnumbered.1] at hrest
        rw [Piece.text, plain, hone]
        omega
      · have hzero := occurrencesBefore_other (fun number heq => hsame ⟨number, heq⟩) h
        rw [hzero, Nat.zero_add]
        cases piece with
        | letter c => exact ih hnumbered h.2
        | token other number =>
            have hrest := ih hnumbered.2 h.2
            rwa [Function.update_of_ne fun heq => hsame ⟨number, by rw [heq]⟩] at hrest

end Numbers

section Filling

variable {filled : List (List α)}

/-- The letters and the tokens that are not filled in keep their text. -/
theorem text_eq_plain (hkeep : ∀ name ∉ filled, ∀ index, value name index = name)
    {piece : Piece α} (h : ∀ name ∈ filled, ∀ index, piece ≠ .token name index) :
    piece.text value = piece.text plain := by
  cases piece with
  | letter c => rfl
  | token name index => exact hkeep name (fun hmem => h name hmem index rfl) index

/-- Values that are still to come are rendered as their names. -/
theorem render_eq_plain (hkeep : ∀ name ∉ filled, ∀ index, value name index = name)
    {pieces : List (Piece α)}
    (h : ∀ piece ∈ pieces, ∀ name ∈ filled, ∀ index, piece ≠ .token name index) :
    render value pieces = render plain pieces := by
  induction pieces with
  | nil => rfl
  | cons piece rest ih =>
      rw [render_cons, render_cons, text_eq_plain hkeep (h piece List.mem_cons_self),
        ih fun other hother => h other (List.mem_cons_of_mem _ hother)]

/-- What a token behind the letters `x` reads: the original text, or on into the
first value. -/
theorem prefix_fill (hkeep : ∀ name ∉ filled, ∀ index, value name index = name)
    {x : List α} {rest : List (Piece α)} (h : name <+: x ++ render value rest) :
    name <+: x ++ render plain rest ∨
      ∃ before other index after a b, rest = before ++ .token other index :: after ∧
        other ∈ filled ∧ name = a ++ b ∧ b ≠ [] ∧ a = x ++ render plain before ∧
        b <+: value other index ++ render value after := by
  induction rest generalizing x with
  | nil => exact .inl h
  | cons piece rest ih =>
      by_cases hfilled : ∃ other ∈ filled, ∃ index, piece = .token other index
      · obtain ⟨other, hother, index, rfl⟩ := hfilled
        rw [render_cons] at h
        by_cases hlength : name.length ≤ x.length
        · exact .inl ((List.prefix_of_prefix_length_le h (List.prefix_append _ _)
            hlength).trans (List.prefix_append _ _))
        · obtain ⟨b, hb⟩ := List.prefix_of_prefix_length_le (List.prefix_append x _) h (by omega)
          refine .inr ⟨[], other, index, rest, x, b, rfl, hother, hb.symm, ?_, ?_, ?_⟩
          · intro heq
            subst heq
            rw [← hb, List.append_nil] at hlength
            exact hlength le_rfl
          · rw [render_nil, List.append_nil]
          · rw [← hb, List.prefix_append_right_inj] at h
            exact h
      · have htext : piece.text value = piece.text plain :=
          text_eq_plain hkeep fun other hother index heq => hfilled ⟨other, hother, index, heq⟩
        rw [render_cons, htext, ← List.append_assoc] at h
        rw [render_cons, ← List.append_assoc]
        rcases ih h with h | ⟨before, other, index, after, a, b, rfl, hother, hab, hb, ha, hstarts⟩
        · exact .inl h
        · refine .inr ⟨piece :: before, other, index, after, a, b, rfl, hother, hab, hb, ?_, hstarts⟩
          rw [ha, render_cons, List.append_assoc]

/-- **Filling in other tokens** makes no occurrence of `name`: its first letter
is in no value, and no value completes it. -/
theorem onlyPieces_fill (hkeep : ∀ name ∉ filled, ∀ index, value name index = name)
    {first : α} (hfirst : name.head? = some first)
    (habsent : ∀ other ∈ filled, ∀ index, first ∉ value other index)
    {pieces : List (Piece α)} (h : OnlyPieces plain name pieces)
    (hfree : ∀ before other index after a b, pieces = before ++ .token other index :: after →
      other ∈ filled → name = a ++ b → b ≠ [] → a <:+ render plain before →
      ¬ b <+: value other index ++ render value after) :
    OnlyPieces value name pieces := by
  induction pieces with
  | nil => trivial
  | cons piece rest ih =>
      refine ⟨fun j hj hoccurs => ?_, ih h.2 ?_⟩
      · rw [render_cons, List.drop_append_of_le_length hj.le] at hoccurs
        by_cases hfilled : ∃ other ∈ filled, ∃ index, piece = .token other index
        · obtain ⟨other, hother, index, rfl⟩ := hfilled
          -- the value would contain the first letter of the token
          obtain ⟨tail, htail⟩ := List.head?_eq_some_iff.mp hfirst
          obtain ⟨c, x, hx⟩ := List.exists_cons_of_ne_nil (List.ne_nil_of_length_pos
            (by rw [List.length_drop]; exact Nat.sub_pos_of_lt hj :
              0 < (List.drop j (value other index)).length))
          have hmem : c ∈ value other index := List.mem_of_mem_drop (hx ▸ List.mem_cons_self)
          rw [Piece.text, hx, htail, List.cons_append, List.cons_prefix_cons] at hoccurs
          exact absurd (hoccurs.1 ▸ hmem) (habsent other hother index)
        · have htext : piece.text value = piece.text plain :=
            text_eq_plain hkeep fun other hother index heq => hfilled ⟨other, hother, index, heq⟩
          rw [htext] at hoccurs hj
          rcases prefix_fill hkeep hoccurs with hplain |
            ⟨before, other, index, after, a, b, rfl, hother, hab, hb, ha, hstarts⟩
          · rw [← List.drop_append_of_le_length hj.le] at hplain
            exact h.1 j hj hplain
          · refine absurd hstarts (hfree (piece :: before) other index after a b rfl hother hab hb ?_)
            rw [ha, render_cons]
            exact ⟨(piece.text plain).take j, by rw [← List.append_assoc, List.take_append_drop]⟩
      · intro before other index after a b hpieces hother hab hb ha
        refine hfree (piece :: before) other index after a b (by rw [hpieces]; rfl) hother hab hb ?_
        exact ha.trans ⟨piece.text plain, rfl⟩

/-- A suffix ends in the second part or reaches into the first. -/
theorem suffix_append_cases {a x y : List α} (h : a <:+ x ++ y) :
    a <:+ y ∨ ∃ z, z ≠ [] ∧ z <:+ x ∧ a = z ++ y := by
  rcases List.suffix_or_suffix_of_suffix h (List.suffix_append x y) with h' | ⟨z, rfl⟩
  · exact .inl h'
  · by_cases hz : z = []
    · exact .inl (by rw [hz]; exact List.suffix_rfl)
    · obtain ⟨w, hw⟩ := h
      rw [← List.append_assoc] at hw
      exact .inr ⟨z, hz, ⟨w, List.append_cancel_right hw⟩, rfl⟩

/-- No occurrence of a token that is not filled in crosses the end of a piece. -/
theorem OnlyPieces.not_crossing {before after : List (Piece α)}
    (h : OnlyPieces value name (before ++ after)) (hself : ∀ index, value name index = name)
    {a b : List α} (hname : name = a ++ b) (ha : a ≠ []) (hb : b ≠ [])
    (hbefore : a <:+ render value before) : ¬ b <+: render value after := by
  intro hafter
  induction before with
  | nil => exact ha (List.suffix_nil.mp hbefore)
  | cons piece before ih =>
      rw [render_cons] at hbefore
      rcases suffix_append_cases hbefore with hrest | ⟨z, hz, ⟨w, hw⟩, haz⟩
      · exact ih h.2 hrest
      · have hpositive : 0 < z.length := List.length_pos_iff.mpr hz
        have hbpositive : 0 < b.length := List.length_pos_iff.mpr hb
        have hoccurs : name <+: (render value (piece :: (before ++ after))).drop w.length := by
          rw [render_cons, ← hw, List.append_assoc, List.drop_left, render_append, hname, haz,
            List.append_assoc, List.prefix_append_right_inj, List.prefix_append_right_inj]
          exact hafter
        obtain ⟨hzero, index, rfl⟩ := h.1 w.length
          (by rw [← hw, List.length_append]; omega) hoccurs
        have hlength := congrArg List.length hw
        rw [Piece.text, hself, hname, haz] at hlength
        simp only [List.length_append] at hlength
        omega

/-- A text in front of a piece is kept by the filling when it has no filled
token in it and does not start in one. -/
theorem suffix_fill (hkeep : ∀ name ∉ filled, ∀ index, value name index = name)
    {a : List α} (hapart : ∀ other ∈ filled, ¬ other <:+: a)
    (hborder : ∀ other ∈ filled, ∀ z, z ≠ [] → z <:+ other → ¬ z <+: a)
    {before : List (Piece α)} (h : a <:+ render plain before) : a <:+ render value before := by
  induction before with
  | nil => exact h
  | cons piece before ih =>
      rw [render_cons] at h ⊢
      rcases suffix_append_cases h with hrest | ⟨z, hz, hpiece, rfl⟩
      · exact (ih hrest).trans (List.suffix_append _ _)
      · have hfirst : piece.text value = piece.text plain := by
          refine text_eq_plain hkeep fun other hother index heq => ?_
          rw [heq] at hpiece
          exact hborder other hother z hz hpiece ⟨_, rfl⟩
        have hrest : render value before = render plain before := by
          refine render_eq_plain hkeep fun piece hpiece other hother index heq => ?_
          obtain ⟨l, r, hlr⟩ := List.append_of_mem hpiece
          refine hapart other hother ⟨z ++ render plain l, render plain r, ?_⟩
          rw [hlr, heq, render_append, render_cons]
          simp only [Piece.text, plain, List.append_assoc]
        rw [hfirst, hrest]
        obtain ⟨w, hw⟩ := hpiece
        exact ⟨w, by rw [← hw, List.append_assoc]⟩

end Filling

end TextPieces

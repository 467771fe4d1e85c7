import Mathlib.Data.List.Forall2
import Nshmqtt.DecimalRoundTrip
import Nshmqtt.EventPlaceholders
import Nshmqtt.TextPieces

/-!
# The twelve passes over an event payload

Every pass searches the text that the passes before it left behind, so it also
reads the values that they put in.  Here the payload is cut at the tokens it has
at the start; a pass is then right when it fills in the pieces of its token and
nothing else.

* `replaceFrom_render` is one pass over a text whose only occurrences of the
  token are its pieces;
* `replacesExactly_iff` says for which payloads and values all passes are right:
  the occurrences do not overlap, and no value makes a later token out of the
  bytes in front of it.
-/

namespace Nshmqtt

open ByteStrings DecimalText TextPieces

/-- What a value looks like. -/
inductive Shape where
  /-- Byte by byte; `h` stands for a lower-case hex digit, `0` for a digit. -/
  | pattern (form : Bytes)
  | integer

def isHexDigit (c : UInt8) : Bool := isdigit c || (97 ≤ c && c ≤ 102)

def FitsByte (form c : UInt8) : Prop :=
  if form = 104 then isHexDigit c = true
  else if form = 48 then isdigit c = true
  else c = form

instance : DecidableRel FitsByte := fun form c =>
  inferInstanceAs (Decidable (if form = 104 then isHexDigit c = true
    else if form = 48 then isdigit c = true else c = form))

def Shape.Fits : Shape → Bytes → Prop
  | .pattern form, value => List.Forall₂ FitsByte form value
  | .integer, value => ∃ n : Int, value = integerText n

/-- The values that the generators return. -/
def valueShapes : List (Bytes × Shape) :=
  [(ascii "NSHMQTT_RANDOM_HEX8", .pattern (List.replicate 8 104)),
    (ascii "NSHMQTT_RANDOM_HEX16", .pattern (List.replicate 16 104)),
    (ascii "NSHMQTT_RANDOM_HEX32", .pattern (List.replicate 32 104)),
    (ascii "NSHMQTT_RANDOM_HEX64", .pattern (List.replicate 64 104)),
    (ascii "NSHMQTT_RANDOM_UUID", .pattern (ascii "hhhhhhhh-hhhh-hhhh-hhhh-hhhhhhhhhhhh")),
    (ascii "NSHMQTT_TIMESTAMP_S", .integer), (ascii "NSHMQTT_TIMESTAMP_MS", .integer),
    (ascii "NSHMQTT_TIMESTAMP_US", .integer), (ascii "NSHMQTT_TIMESTAMP_NS", .integer),
    (ascii "NSHMQTT_DATETIME_UTC", .pattern (ascii "0000-00-00T00:00:00Z")),
    (ascii "NSHMQTT_DATE_UTC", .pattern (ascii "0000-00-00")),
    (ascii "NSHMQTT_TIME_UTC", .pattern (ascii "00:00:00"))]

/-- All values have the documented shapes. -/
def ShapedValues (generate : Bytes → Nat → Bytes) : Prop :=
  ∀ entry ∈ valueShapes, ∀ count, entry.2.Fits (generate entry.1 count)

/-- The tokens of `done` are replaced by their values. -/
def filledBy (generate : Bytes → Nat → Bytes) (done : List Bytes) : Bytes → Nat → Bytes :=
  fun token count => if token ∈ done then generate token count else token

/-- The payload is a list of pieces, and after each pass the text is these
pieces with the tokens of the passes so far filled in, the `n`-th of a kind with
the `n`-th value.  No token of a pass to come is anywhere but in its pieces, so
none is formed from a value or found in one. -/
def ReplacesExactly (generate : Bytes → Nat → Bytes) (payload : Bytes) : Prop :=
  ∃ pieces : List (Piece UInt8), render plain pieces = payload ∧
    NumberedFrom (fun _ => 0) pieces ∧ NamesIn placeholderTokens pieces ∧
    ∀ done rest, done ++ rest = placeholderTokens →
      done.foldl (fun text token => replaceAllWithFreshValues text token (generate token)) payload =
          render (filledBy generate done) pieces ∧
        ∀ token ∈ rest, OnlyPieces (filledBy generate done) token pieces

/-- No value, together with the payload in front of its token, starts with a
token whose pass comes later. -/
def NoneCompleted (generate : Bytes → Nat → Bytes) (payload : Bytes) : Prop :=
  ∀ earlier token later, placeholderTokens = earlier ++ token :: later →
    ∀ p, token <+: payload.drop p → ∀ next ∈ later, ∀ a b, next = a ++ b → b ≠ [] →
      a <:+ payload.take p → ¬ b <+: generate token (occurrencesBefore token payload p)

/-- Positions without an occurrence are passed over. -/
theorem replaceFrom_skip {token text : Bytes} (htoken : token ≠ []) {generate : Nat → Bytes}
    {pos n count : Nat} (hfree : ∀ j, pos ≤ j → j < pos + n → ¬ token <+: text.drop j) :
    replaceFrom token generate text pos count =
      replaceFrom token generate text (pos + n) count := by
  have hfind : find text token pos = find text token (pos + n) := by
    refine Option.ext fun k => ?_
    rw [find_eq_some_iff, find_eq_some_iff]
    constructor
    · intro h
      obtain ⟨hle, hlen, hoccurs, hfirst⟩ := h
      have hbehind : pos + n ≤ k := by
        by_contra hlt
        exact hfree k hle (by omega) hoccurs
      exact ⟨hbehind, hlen, hoccurs, fun j hj => hfirst j (by omega)⟩
    · intro h
      obtain ⟨hle, hlen, hoccurs, hfirst⟩ := h
      refine ⟨by omega, hlen, hoccurs, fun j hj hlt => ?_⟩
      by_cases hbefore : j < pos + n
      · exact hfree j hj hbefore
      · exact hfirst j (by omega) hlt
  rw [replaceFrom_eq htoken, replaceFrom_eq htoken, hfind]

/-- At an occurrence the value goes in, and the search goes on behind it. -/
theorem replaceFrom_token {token : Bytes} (htoken : token ≠ []) (generate : Nat → Bytes)
    (front back : Bytes) (count : Nat) :
    replaceFrom token generate (front ++ (token ++ back)) front.length count =
      replaceFrom token generate ((front ++ generate count) ++ back)
        (front ++ generate count).length (count + 1) := by
  have hfind : find (front ++ (token ++ back)) token front.length = some front.length := by
    rw [find_at, find_of_prefix (List.prefix_append _ _), Option.map_some, Nat.zero_add]
  rw [replaceFrom_eq htoken, hfind]
  simp only [List.take_left, List.length_append]
  rw [← List.append_assoc, ← List.length_append, List.drop_left, List.append_assoc]

/-- A further pass fills the places of its own token only. -/
theorem filledBy_append (generate : Bytes → Nat → Bytes) (done : List Bytes) (token : Bytes)
    {name : Bytes} (h : name ≠ token) (count : Nat) :
    filledBy generate (done ++ [token]) name count = filledBy generate done name count := by
  unfold filledBy
  simp [h]

/-- **One pass** over pieces that have all occurrences of its token. -/
theorem replaceFrom_render {generate : Bytes → Nat → Bytes} {done : List Bytes} {token : Bytes}
    (htoken : token ≠ []) (hnew : token ∉ done) {pieces : List (Piece UInt8)}
    (honly : OnlyPieces (filledBy generate done) token pieces) {counts : Bytes → Nat}
    (hnumbered : NumberedFrom counts pieces) (front : Bytes) :
    replaceFrom token (generate token) (front ++ render (filledBy generate done) pieces)
        front.length (counts token) =
      front ++ render (filledBy generate (done ++ [token])) pieces := by
  induction pieces generalizing counts front with
  | nil =>
      have hnone : find (front ++ []) token front.length = none := by
        refine Option.eq_none_iff_forall_ne_some.mpr fun k hk => ?_
        have := find_length hk
        have := List.length_pos_iff.mpr htoken
        rw [List.append_nil] at *
        omega
      rw [render_nil, replaceFrom_eq htoken, hnone]
      rfl
  | cons piece rest ih =>
      by_cases hpiece : ∃ index, piece = .token token index
      · obtain ⟨index, rfl⟩ := hpiece
        have hold : Piece.text (filledBy generate done) (.token token index) = token :=
          if_neg hnew
        have hfilled : Piece.text (filledBy generate (done ++ [token])) (.token token index) =
            generate token (counts token) := by
          rw [← hnumbered.1]
          exact if_pos (by simp)
        have hrest := ih honly.2 hnumbered.2 (front ++ generate token (counts token))
        rw [Function.update_self, hnumbered.1] at hrest
        rw [render_cons, render_cons, hold, hfilled, replaceFrom_token htoken, hrest,
          List.append_assoc]
      · have htext : piece.text (filledBy generate (done ++ [token])) =
            piece.text (filledBy generate done) := by
          cases piece with
          | letter c => rfl
          | token name index =>
              exact filledBy_append generate done token
                (fun heq => hpiece ⟨index, by rw [heq]⟩) index
        have hskip : replaceFrom token (generate token)
            (front ++ render (filledBy generate done) (piece :: rest)) front.length
            (counts token) =
            replaceFrom token (generate token)
              ((front ++ piece.text (filledBy generate done)) ++
                render (filledBy generate done) rest)
              (front ++ piece.text (filledBy generate done)).length (counts token) := by
          rw [List.length_append, List.append_assoc, ← render_cons]
          refine replaceFrom_skip htoken fun j hj hlt hoccurs => hpiece ?_
          rw [List.drop_append, List.drop_eq_nil_of_le hj, List.nil_append] at hoccurs
          exact (honly.1 (j - front.length) (by omega) hoccurs).2
        rw [hskip, render_cons, htext, ← List.append_assoc]
        cases piece with
        | letter c => exact ih honly.2 hnumbered _
        | token name index =>
            have hrest := ih honly.2 hnumbered.2 (front ++ filledBy generate done name index)
            rwa [Function.update_of_ne fun heq => hpiece ⟨index, by rw [heq]⟩] at hrest

/-- What all tokens start with. -/
def tokenStart : Bytes := [78, 83, 72, 77, 81, 84, 84, 95]

/-- The tokens byte by byte. -/
theorem placeholderTokens_bytes : placeholderTokens =
    [[82, 65, 78, 68, 79, 77, 95, 72, 69, 88, 56],
      [82, 65, 78, 68, 79, 77, 95, 72, 69, 88, 49, 54],
      [82, 65, 78, 68, 79, 77, 95, 72, 69, 88, 51, 50],
      [82, 65, 78, 68, 79, 77, 95, 72, 69, 88, 54, 52],
      [82, 65, 78, 68, 79, 77, 95, 85, 85, 73, 68],
      [84, 73, 77, 69, 83, 84, 65, 77, 80, 95, 83],
      [84, 73, 77, 69, 83, 84, 65, 77, 80, 95, 77, 83],
      [84, 73, 77, 69, 83, 84, 65, 77, 80, 95, 85, 83],
      [84, 73, 77, 69, 83, 84, 65, 77, 80, 95, 78, 83],
      [68, 65, 84, 69, 84, 73, 77, 69, 95, 85, 84, 67],
      [68, 65, 84, 69, 95, 85, 84, 67],
      [84, 73, 77, 69, 95, 85, 84, 67]].map (tokenStart ++ ·) := by
  decide +kernel

/-- All tokens begin with the same letter. -/
theorem head_placeholderTokens : ∀ token ∈ placeholderTokens, token.head? = some 78 := by
  rw [placeholderTokens_bytes, List.forall_mem_map]
  exact fun _ _ => rfl

/-- No token is empty. -/
theorem placeholderTokens_ne_nil {token : Bytes} (h : token ∈ placeholderTokens) : token ≠ [] := by
  intro heq
  subst heq
  cases head_placeholderTokens [] h

/-- The tokens with a digit in them. -/
def hexTokens : List Bytes := placeholderTokens.take 4

def otherTokens : List Bytes := placeholderTokens.drop 4

/-- What a value starts with. -/
def isValueStart (c : UInt8) : Bool := isHexDigit c || c == minus

/-- How the tokens overlap, in one evaluation: they are distinct, none starts with
another one, and only the last two bytes of a token with digits start a value. -/
theorem placeholderTokens_overlaps : placeholderTokens.Nodup ∧
    (∀ first ∈ placeholderTokens, ∀ second ∈ placeholderTokens,
      first <+: second → first = second) ∧
    (otherTokens.all fun token => token.all fun c => !isValueStart c) = true ∧
    (hexTokens.all fun token =>
      (token.take (token.length - 2)).all fun c => !isValueStart c) = true ∧
    (∀ first ∈ hexTokens, ∀ second ∈ hexTokens, first <:+: second → first = second) ∧
    ∀ first ∈ hexTokens, ∀ second ∈ hexTokens, ∀ z ∈ first.tails,
      z ≠ [] → z <+: second → z = second := by
  rw [otherTokens, hexTokens, placeholderTokens_bytes]
  decide +kernel

theorem nodup_placeholderTokens : placeholderTokens.Nodup := placeholderTokens_overlaps.1

/-- No token starts with another one. -/
theorem prefix_placeholderTokens : ∀ first ∈ placeholderTokens, ∀ second ∈ placeholderTokens,
    first <+: second → first = second :=
  placeholderTokens_overlaps.2.1

/-- Apart from the hexadecimal ones no token has a byte that can start a value. -/
theorem otherTokens_plain : ∀ token ∈ otherTokens, ∀ c ∈ token, isValueStart c = false := by
  obtain ⟨-, -, hall, -⟩ := placeholderTokens_overlaps
  intro token htoken c hc
  have hplain := List.all_eq_true.mp (List.all_eq_true.mp hall token htoken) c hc
  exact (Bool.not_eq_true' _).mp hplain

/-- The digits of a token are its last two bytes at most. -/
theorem hexTokens_plain : ∀ token ∈ hexTokens, ∀ c ∈ token.take (token.length - 2),
    isValueStart c = false := by
  obtain ⟨-, -, -, hall, -⟩ := placeholderTokens_overlaps
  intro token htoken c hc
  have htail := List.all_eq_true.mp (List.all_eq_true.mp hall token htoken) c hc
  exact (Bool.not_eq_true' _).mp htail

/-- None of the hexadecimal tokens is within another. -/
theorem infix_hexTokens : ∀ first ∈ hexTokens, ∀ second ∈ hexTokens,
    first <:+: second → first = second :=
  placeholderTokens_overlaps.2.2.2.2.1

/-- No end of one of these tokens is the start of another one. -/
theorem border_hexTokens : ∀ first ∈ hexTokens, ∀ second ∈ hexTokens, ∀ z ∈ first.tails,
    z ≠ [] → z <+: second → z = second :=
  placeholderTokens_overlaps.2.2.2.2.2

/-- A token with digits only has tokens with digits in front of it. -/
theorem mem_hexTokens_of_before {done rest : List Bytes} (h : done ++ rest = placeholderTokens)
    {token next : Bytes} (htoken : token ∈ done) (hnext : next ∈ rest) (hhex : next ∈ hexTokens) :
    token ∈ hexTokens := by
  have hsplit : done ++ rest = hexTokens ++ otherTokens := h
  rcases List.append_eq_append_iff.mp hsplit with ⟨more, hmore, -⟩ | ⟨more, -, hmore⟩
  · rw [hmore]
    exact List.mem_append_left _ htoken
  · have hnodup : (hexTokens ++ otherTokens).Nodup := nodup_placeholderTokens
    have hother : next ∈ otherTokens := hmore ▸ List.mem_append_right _ hnext
    exact absurd rfl ((List.nodup_append.mp hnodup).2.2 next hhex next hother)

theorem isValueStart_of_isdigit {c : UInt8} (h : isdigit c = true) : isValueStart c = true := by
  simp [isValueStart, isHexDigit, h]

/-- The forms of the values start with a digit and have no `N`. -/
def Shape.regular : Shape → Bool
  | .pattern form => (form.head? = some 104 || form.head? = some 48) && ¬ 78 ∈ form
  | .integer => true

theorem regular_valueShapes : ∀ entry ∈ valueShapes, entry.2.regular = true := by decide +kernel

/-- Only a place for itself takes an `N`. -/
theorem FitsByte.ne {form c : UInt8} (h : FitsByte form c) (hform : form ≠ 78) : c ≠ 78 := by
  intro heq
  subst heq
  unfold FitsByte at h
  split_ifs at h
  · exact absurd h (by decide)
  · exact absurd h (by decide)
  · exact hform h.symm

/-- No value has the first letter of the tokens in it. -/
theorem not_mem_of_fits {form value : Bytes} (h : List.Forall₂ FitsByte form value)
    (hform : 78 ∉ form) : 78 ∉ value := by
  induction h with
  | nil => exact List.not_mem_nil
  | cons hbyte _ ih =>
      rw [List.mem_cons, not_or] at hform ⊢
      exact ⟨(hbyte.ne (Ne.symm hform.1)).symm, ih hform.2⟩

/-- A value starts with a digit, a hex digit or a sign, and it has no `N`. -/
theorem Shape.Fits.start {shape : Shape} {value : Bytes} (h : shape.Fits value)
    (hregular : shape.regular = true) :
    ∃ c tail, value = c :: tail ∧ isValueStart c = true ∧ 78 ∉ value := by
  cases shape with
  | pattern form =>
      simp only [Shape.regular, Bool.and_eq_true, Bool.or_eq_true, decide_eq_true_eq] at hregular
      obtain ⟨hhead, hform⟩ := hregular
      have habsent := not_mem_of_fits h hform
      cases h with
      | nil => simp at hhead
      | @cons d c form value hbyte _ =>
          refine ⟨c, value, rfl, ?_, habsent⟩
          unfold FitsByte at hbyte
          rcases hhead with hhead | hhead <;> cases Option.some.inj hhead
          · simp [isValueStart, if_pos rfl ▸ hbyte]
          · exact isValueStart_of_isdigit hbyte
  | integer =>
      obtain ⟨n, rfl⟩ := h
      have hdigits : ∀ c ∈ decimalText n.natAbs, isdigit c = true :=
        fun c hc => isdigit_of_mem_decimalText hc
      have hno : 78 ∉ decimalText n.natAbs := fun hc => absurd (hdigits 78 hc) (by decide)
      unfold integerText
      split_ifs
      · exact ⟨minus, _, rfl, rfl, List.not_mem_cons_of_ne_of_not_mem (by decide) hno⟩
      · obtain ⟨c, tail, hvalue⟩ := List.exists_cons_of_ne_nil (decimalText_ne_nil n.natAbs)
        exact ⟨c, tail, hvalue,
          isValueStart_of_isdigit (hdigits c (hvalue ▸ List.mem_cons_self)), hno⟩

/-- Every value begins with a byte that can start a value, and has no `N`. -/
theorem ShapedValues.start {generate : Bytes → Nat → Bytes} (h : ShapedValues generate)
    {token : Bytes} (htoken : token ∈ placeholderTokens) (count : Nat) :
    ∃ c tail, generate token count = c :: tail ∧ isValueStart c = true ∧
      78 ∉ generate token count := by
  have hnames : placeholderTokens = valueShapes.map Prod.fst := rfl
  rw [hnames] at htoken
  obtain ⟨⟨name, shape⟩, hentry, rfl⟩ := List.mem_map.mp htoken
  exact (h _ hentry count).start (regular_valueShapes _ hentry)

/-- The values of the hex tokens are longer than two bytes. -/
theorem ShapedValues.length_hex {generate : Bytes → Nat → Bytes} (h : ShapedValues generate)
    {token : Bytes} (htoken : token ∈ hexTokens) (count : Nat) :
    2 ≤ (generate token count).length := by
  have hnames : hexTokens = (valueShapes.take 4).map Prod.fst := rfl
  rw [hnames] at htoken
  obtain ⟨⟨name, shape⟩, hentry, rfl⟩ := List.mem_map.mp htoken
  have hfits := h _ (List.mem_of_mem_take hentry) count
  have hlong : ∀ entry ∈ valueShapes.take 4, ∃ form, entry.2 = .pattern form ∧
      2 ≤ form.length := by
    simp [valueShapes]
  obtain ⟨form, hform, hlength⟩ := hlong _ hentry
  simp only at hform hfits
  rw [hform] at hfits
  exact hfits.length_eq ▸ hlength

/-- A token whose pass is to come is still there. -/
theorem filledBy_of_not_mem {generate : Bytes → Nat → Bytes} {done : List Bytes} :
    ∀ name ∉ done, ∀ count, filledBy generate done name count = name :=
  fun _ h _ => if_neg h

theorem filledBy_nil (generate : Bytes → Nat → Bytes) : filledBy generate [] = plain := by
  funext name count
  exact filledBy_of_not_mem name List.not_mem_nil count

/-- The passes so far fill in the pieces of their tokens. -/
theorem foldl_render {generate : Bytes → Nat → Bytes} {pieces : List (Piece UInt8)}
    (hnumbered : NumberedFrom (fun _ => 0) pieces)
    (honly : ∀ done rest, done ++ rest = placeholderTokens →
      ∀ token ∈ rest, OnlyPieces (filledBy generate done) token pieces)
    {done rest : List Bytes} (hsplit : done ++ rest = placeholderTokens) :
    done.foldl (fun text token => replaceAllWithFreshValues text token (generate token))
        (render plain pieces) =
      render (filledBy generate done) pieces := by
  induction done using List.reverseRecOn generalizing rest with
  | nil => rw [filledBy_nil]; rfl
  | append_singleton done token ih =>
      rw [List.append_assoc] at hsplit
      have hmem : token ∈ placeholderTokens := hsplit ▸ by simp
      have hnew : token ∉ done := by
        have hnodup := List.nodup_append.mp (hsplit ▸ nodup_placeholderTokens)
        exact fun h => hnodup.2.2 token h token (by simp) rfl
      rw [List.foldl_append, ih hsplit]
      exact replaceFrom_render (placeholderTokens_ne_nil hmem) hnew
        (honly done _ hsplit token (by simp)) hnumbered []

/-- The bytes of a token that a value starts with are its last two at most. -/
theorem length_completed {next a b : Bytes} {c : UInt8} (hnext : next ∈ hexTokens)
    (hab : next = a ++ c :: b) (hc : isValueStart c = true) : (c :: b).length ≤ 2 := by
  by_contra hlong
  have hmem : c ∈ next.take (next.length - 2) := by
    rw [hab, List.take_append]
    refine List.mem_append_right _ ?_
    simp only [List.length_append, List.length_cons] at hlong ⊢
    rw [show a.length + (b.length + 1) - 2 - a.length = (b.length - 2) + 1 by omega]
    exact List.mem_cons_self
  rw [hexTokens_plain next hnext c hmem] at hc
  cases hc

/-- A token that a value starts inside of ends with digits. -/
theorem mem_hexTokens_of_completed {next a b : Bytes} {c : UInt8}
    (hnext : next ∈ placeholderTokens) (hab : next = a ++ c :: b) (hc : isValueStart c = true) :
    next ∈ hexTokens := by
  have hsplit : next ∈ hexTokens ++ otherTokens := hnext
  refine (List.mem_append.mp hsplit).resolve_right fun hother => ?_
  rw [otherTokens_plain next hother c (hab ▸ by simp)] at hc
  cases hc

/-- **The values leave the later tokens alone** when they complete none. -/
theorem onlyPieces_filledBy {generate : Bytes → Nat → Bytes} (hshapes : ShapedValues generate)
    {pieces : List (Piece UInt8)} (hnumbered : NumberedFrom (fun _ => 0) pieces)
    (honly : ∀ token ∈ placeholderTokens, OnlyPieces plain token pieces)
    (hnone : NoneCompleted generate (render plain pieces))
    {done rest : List Bytes} (hsplit : done ++ rest = placeholderTokens) :
    ∀ next ∈ rest, OnlyPieces (filledBy generate done) next pieces := by
  intro next hnext
  have hmemDone : ∀ token ∈ done, token ∈ placeholderTokens :=
    fun token h => hsplit ▸ List.mem_append_left _ h
  have hmemNext : next ∈ placeholderTokens := hsplit ▸ List.mem_append_right _ hnext
  refine onlyPieces_fill filledBy_of_not_mem (head_placeholderTokens next hmemNext) ?_
    (honly next hmemNext) ?_
  · intro token htoken count
    obtain ⟨c, tail, -, -, habsent⟩ := hshapes.start (hmemDone token htoken) count
    rw [filledBy, if_pos htoken]
    exact habsent
  · intro before token count after a b hpieces htoken hab hb ha hstarts
    obtain ⟨c, tail, hvalue, hc, -⟩ := hshapes.start (hmemDone token htoken) count
    rw [filledBy, if_pos htoken] at hstarts
    obtain ⟨d, b, rfl⟩ := List.exists_cons_of_ne_nil hb
    have hfirst : d = c := by
      rw [hvalue, List.cons_append, List.cons_prefix_cons] at hstarts
      exact hstarts.1
    subst hfirst
    have hhex := mem_hexTokens_of_completed hmemNext hab hc
    have hlength := hshapes.length_hex (mem_hexTokens_of_before hsplit htoken hnext hhex) count
    have hinside : d :: b <+: generate token count :=
      List.prefix_of_prefix_length_le hstarts (List.prefix_append _ _)
        ((length_completed hhex hab hc).trans hlength)
    have hcount := (hpieces ▸ hnumbered).index_eq (placeholderTokens_ne_nil (hmemDone token htoken))
      (hpieces ▸ honly token (hmemDone token htoken))
    rw [Nat.zero_add, ← hpieces] at hcount
    obtain ⟨earlier, more, hdone⟩ := List.append_of_mem htoken
    refine hnone earlier token (more ++ rest) ?_ (render plain before).length ?_ next
      (List.mem_append_right _ hnext) a (d :: b) hab hb ?_ (hcount ▸ hinside)
    · rw [← hsplit, hdone, List.append_assoc, List.cons_append]
    · rw [hpieces, render_append, List.drop_left]
      exact List.prefix_append _ _
    · rw [hpieces, render_append, List.take_left]
      exact ha

/-- **A completed token is an occurrence** outside of the pieces. -/
theorem noneCompleted_of_onlyPieces {generate : Bytes → Nat → Bytes}
    (hshapes : ShapedValues generate) {pieces : List (Piece UInt8)}
    (hnumbered : NumberedFrom (fun _ => 0) pieces)
    (honly : ∀ done rest, done ++ rest = placeholderTokens →
      ∀ token ∈ rest, OnlyPieces (filledBy generate done) token pieces) :
    NoneCompleted generate (render plain pieces) := by
  intro earlier token later hsplit p hp next hnext a b hab hb ha hstarts
  have hplain : ∀ token ∈ placeholderTokens, OnlyPieces plain token pieces := by
    intro name hname
    have := honly [] placeholderTokens rfl name hname
    rwa [filledBy_nil] at this
  have hmemToken : token ∈ placeholderTokens := hsplit ▸ by simp
  have hmemNext : next ∈ placeholderTokens := hsplit ▸ by simp [hnext]
  obtain ⟨before, count, after, hpieces, hlength⟩ :=
    (hplain token hmemToken).exists_piece (placeholderTokens_ne_nil hmemToken) hp
  have hcount := (hpieces ▸ hnumbered).index_eq (placeholderTokens_ne_nil hmemToken)
    (hpieces ▸ hplain token hmemToken)
  rw [Nat.zero_add, ← hpieces, hlength] at hcount
  rw [← hcount] at hstarts
  -- the later token has digits, so all tokens filled in by then have digits too
  obtain ⟨c, tail, hvalue, hc, habsent⟩ := hshapes.start hmemToken count
  obtain ⟨d, b, rfl⟩ := List.exists_cons_of_ne_nil hb
  have hfirst : d = c := by
    rw [hvalue, List.cons_prefix_cons] at hstarts
    exact hstarts.1
  subst hfirst
  have hhex := mem_hexTokens_of_completed hmemNext hab hc
  have hdone : (earlier ++ [token]) ++ later = placeholderTokens := by
    rw [hsplit, List.append_assoc, List.singleton_append]
  have hhexDone : ∀ other ∈ earlier ++ [token], other ∈ hexTokens :=
    fun other h => mem_hexTokens_of_before hdone h hnext hhex
  have hnew : next ∉ earlier ++ [token] := fun h =>
    (List.nodup_append.mp (hdone ▸ nodup_placeholderTokens)).2.2 next h next hnext rfl
  have ha' : a ≠ [] := by
    intro heq
    subst heq
    have hhead := head_placeholderTokens next hmemNext
    rw [hab, List.nil_append] at hhead
    cases Option.some.inj hhead
    exact absurd hc (by decide)
  have hshort : a.length < next.length := by
    rw [hab, List.length_append, List.length_cons]
    omega
  have hinPayload : a <:+ render plain before := by
    rw [hpieces, ← hlength, render_append, List.take_left] at ha
    exact ha
  have hinText : a <:+ render (filledBy generate (earlier ++ [token])) before := by
    refine suffix_fill filledBy_of_not_mem ?_ ?_ hinPayload
    · intro other hother hinside
      have := infix_hexTokens other (hhexDone other hother) next hhex
        (hinside.trans ⟨[], d :: b, by rw [hab, List.nil_append]⟩)
      exact absurd hinside.length_le (by rw [this]; omega)
    · intro other hother z hz hend hstart
      have := border_hexTokens other (hhexDone other hother) next hhex z
        ((List.mem_tails z other).mpr hend) hz (hstart.trans ⟨d :: b, hab.symm⟩)
      exact absurd hstart.length_le (by rw [this]; omega)
  have hwhole := honly _ later hdone next hnext
  rw [hpieces] at hwhole
  refine hwhole.not_crossing (fun _ => filledBy_of_not_mem _ hnew _) hab ha' hb hinText ?_
  refine hstarts.trans ?_
  rw [render_cons, Piece.text, filledBy, if_pos (by simp)]
  exact List.prefix_append _ _

/-- One value for every token, whatever the count. -/
def sampleValue (hex8 : Bytes) (token : Bytes) (_count : Nat) : Bytes :=
  ([(ascii "NSHMQTT_RANDOM_HEX8", hex8), (ascii "NSHMQTT_RANDOM_HEX16", ascii "0123456789abcdef"),
    (ascii "NSHMQTT_RANDOM_HEX32", ascii "0123456789abcdef0123456789abcdef"),
    (ascii "NSHMQTT_RANDOM_HEX64",
      ascii "0123456789abcdef0123456789abcdef0123456789abcdef0123456789abcdef"),
    (ascii "NSHMQTT_RANDOM_UUID", ascii "01234567-89ab-4cde-8f01-23456789abcd"),
    (ascii "NSHMQTT_TIMESTAMP_S", integerText 1789050181),
    (ascii "NSHMQTT_TIMESTAMP_MS", integerText 1789050181000),
    (ascii "NSHMQTT_TIMESTAMP_US", integerText 1789050181000000),
    (ascii "NSHMQTT_TIMESTAMP_NS", integerText 1789050181000000000),
    (ascii "NSHMQTT_DATETIME_UTC", ascii "2026-09-10T14:23:01Z"),
    (ascii "NSHMQTT_DATE_UTC", ascii "2026-09-10"),
    (ascii "NSHMQTT_TIME_UTC", ascii "14:23:01")].lookup token).getD []

/-- In a table with one row for each key, every key finds its own row. -/
theorem lookup_zip {β : Type*} {R : β → Bytes → Prop} {keys values : List Bytes}
    {shapes : List β} (hkeys : keys.Nodup) (h : List.Forall₂ R shapes values) :
    ∀ entry ∈ keys.zip shapes, R entry.2 (((keys.zip values).lookup entry.1).getD []) := by
  induction h generalizing keys with
  | nil => simp
  | @cons shape value shapes values hfirst hrest ih =>
      cases keys with
      | nil => simp
      | cons key keys =>
          obtain ⟨hkey, hkeys⟩ := List.nodup_cons.mp hkeys
          rw [List.zip_cons_cons, List.zip_cons_cons, List.forall_mem_cons]
          constructor
          · rw [List.lookup_cons_self]
            exact hfirst
          · intro entry hentry
            have hmem : entry.1 ∈ keys := (List.of_mem_zip hentry).1
            have hother : entry.1 ≠ key := fun heq => hkey (heq ▸ hmem)
            rw [List.lookup_cons, beq_eq_false_iff_ne.mpr hother]
            exact ih hkeys entry hentry

/-- The sample generator is shaped. -/
theorem shapedValues_sampleValue {hex8 : Bytes}
    (h : List.Forall₂ FitsByte (List.replicate 8 104) hex8) : ShapedValues (sampleValue hex8) := by
  have h16 : (Shape.pattern (List.replicate 16 104)).Fits (ascii "0123456789abcdef") := by
    unfold Shape.Fits
    decide +kernel
  have h32 : (Shape.pattern (List.replicate 32 104)).Fits
      (ascii "0123456789abcdef0123456789abcdef") := by
    unfold Shape.Fits
    decide +kernel
  have h64 : (Shape.pattern (List.replicate 64 104)).Fits
      (ascii "0123456789abcdef0123456789abcdef0123456789abcdef0123456789abcdef") := by
    unfold Shape.Fits
    decide +kernel
  have huuid : (Shape.pattern (ascii "hhhhhhhh-hhhh-hhhh-hhhh-hhhhhhhhhhhh")).Fits
      (ascii "01234567-89ab-4cde-8f01-23456789abcd") := by
    unfold Shape.Fits
    decide +kernel
  have hdatetime : (Shape.pattern (ascii "0000-00-00T00:00:00Z")).Fits
      (ascii "2026-09-10T14:23:01Z") := by
    unfold Shape.Fits
    decide +kernel
  have hdate : (Shape.pattern (ascii "0000-00-00")).Fits (ascii "2026-09-10") := by
    unfold Shape.Fits
    decide +kernel
  have htime : (Shape.pattern (ascii "00:00:00")).Fits (ascii "14:23:01") := by
    unfold Shape.Fits
    decide +kernel
  have htexts : List.Forall₂ Shape.Fits (valueShapes.map Prod.snd) _ :=
    .cons h (.cons h16 (.cons h32 (.cons h64 (.cons huuid (.cons ⟨1789050181, rfl⟩
      (.cons ⟨1789050181000, rfl⟩ (.cons ⟨1789050181000000, rfl⟩
        (.cons ⟨1789050181000000000, rfl⟩ (.cons hdatetime (.cons hdate (.cons htime .nil)))))))))))
  have hshapes : placeholderTokens.zip (valueShapes.map Prod.snd) = valueShapes := rfl
  intro entry hentry count
  rw [← hshapes] at hentry
  exact lookup_zip nodup_placeholderTokens htexts entry hentry

/-- Passes that find nothing leave the text alone. -/
theorem foldl_passes_of_none {generate : Bytes → Nat → Bytes} {text : Bytes}
    {tokens : List Bytes} (htokens : ∀ token ∈ tokens, token ≠ [])
    (hnone : ∀ token ∈ tokens, find text token 0 = none) :
    tokens.foldl (fun text token => replaceAllWithFreshValues text token (generate token)) text =
      text := by
  induction tokens with
  | nil => rfl
  | cons token tokens ih =>
      rw [List.foldl_cons, replaceAllWithFreshValues, replaceFrom_eq (htokens token (by simp)),
        hnone token (by simp)]
      exact ih (fun other h => htokens other (by simp [h])) fun other h => hnone other (by simp [h])

end Nshmqtt

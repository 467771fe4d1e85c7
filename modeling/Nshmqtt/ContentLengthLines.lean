import Nshmqtt.NumberGrammar
import Nshmqtt.RequestRoundTrip

/-!
# The lengths that a head announces

The scan of the header lines keeps the value of the last Content-Length line and reads
it with `strtol`, on the C string.  So a sign, a tab before the digits and everything
behind a NUL byte are passed over, and of two different lengths the second one counts.

* `headerLines` are the lines of a head, told from the bytes alone;
* `scanHeaders_eq_foldlM` : the scan applies exactly these lines, in order;
* `lengthsDenote_iff` : when all Content-Length lines mean the length that is used.
-/

namespace Nshmqtt

open ByteStrings DecimalText

/-- The lines that end with CRLF. -/
def completeLines (s : Bytes) : List Bytes :=
  match _hfound : find s crlf 0 with
  | none => []
  | some k => s.take k :: completeLines (s.drop (k + 2))
  termination_by s.length
  decreasing_by
    have hlength := (find_length _hfound).2
    have hcrlf : crlf.length = 2 := rfl
    rw [List.length_drop]
    omega

/-- The lines behind the request line, up to the first empty one. -/
def headerLines (raw : Bytes) : List Bytes :=
  (completeLines raw).tail.takeWhile fun line => !line.isEmpty

/-- A text without a line end has no complete line. -/
theorem completeLines_none {s : Bytes} (h : find s crlf 0 = none) : completeLines s = [] := by
  rw [completeLines]
  split
  · rfl
  · rename_i k hfound
    rw [h] at hfound
    cases hfound

/-- The first complete line ends at the first line end. -/
theorem completeLines_some {s : Bytes} {k : Nat} (h : find s crlf 0 = some k) :
    completeLines s = s.take k :: completeLines (s.drop (k + 2)) := by
  rw [completeLines]
  split
  · rename_i hfound
    rw [h] at hfound
    cases hfound
  · rename_i k' hfound
    rw [h] at hfound
    cases hfound
    rfl

/-- A search may start later where nothing is found before. -/
theorem find_of_absent {s pat : Bytes} {p q : Nat} (hpq : p ≤ q)
    (h : ∀ j, p ≤ j → j < q → ¬ pat <+: s.drop j) : find s pat p = find s pat q := by
  apply Option.ext
  intro k
  rw [find_eq_some_iff, find_eq_some_iff]
  constructor
  · intro h
    obtain ⟨hle, hlength, hpre, hfirst⟩ := h
    have hk : q ≤ k := by
      by_contra hlt
      exact h k hle (by omega) hpre
    exact ⟨hk, hlength, hpre, fun j hj hjk => hfirst j (by omega) hjk⟩
  · intro h
    obtain ⟨hle, hlength, hpre, hfirst⟩ := h
    refine ⟨by omega, hlength, hpre, ?_⟩
    intro j hj hjk
    by_cases hjq : j < q
    · exact h j hj hjq
    · exact hfirst j (by omega) hjk

/-- To search from a position is to search what is behind it. -/
theorem find_drop {s pat : Bytes} {pos : Nat} (h : pos ≤ s.length) :
    find s pat pos = (find (s.drop pos) pat 0).map (· + pos) := by
  simp [find, h]

/-- One line from `pos` on. -/
theorem completeLines_drop {raw : Bytes} {pos next : Nat} (hpos : pos ≤ raw.length)
    (h : find raw crlf pos = some next) :
    completeLines (raw.drop pos) =
      substr raw pos (next - pos) :: completeLines (raw.drop (next + 2)) := by
  rw [find_drop hpos, Option.map_eq_some_iff] at h
  obtain ⟨k, hk, rfl⟩ := h
  have hnext : pos + (k + 2) = k + pos + 2 := by omega
  rw [completeLines_some hk, List.drop_drop, hnext, Nat.add_sub_cancel, substr]

/-- The end of the head is two line ends in a row. -/
theorem headEnd_iff {s : Bytes} {p : Nat} :
    headEnd <+: s.drop p ↔ crlf <+: s.drop p ∧ crlf <+: s.drop (p + 2) := by
  rw [← List.drop_drop]
  constructor
  · intro h
    obtain ⟨rest, hrest⟩ := h
    rw [← hrest]
    exact ⟨⟨crlf ++ rest, rfl⟩, ⟨rest, rfl⟩⟩
  · intro h
    obtain ⟨⟨rest, hrest⟩, rest', hrest'⟩ := h
    rw [← hrest] at hrest' ⊢
    have hsame : crlf ++ rest' = rest := hrest'
    rw [← hsame]
    exact ⟨rest', rfl⟩

/-- The blank line is not before the end of a line that is not empty. -/
theorem find_headEnd_of_line {raw : Bytes} {p next : Nat} (hline : crlf <+: raw.drop p)
    (hnext : find raw crlf (p + 2) = some next) (hne : next ≠ p + 2) :
    find raw headEnd p = find raw headEnd next := by
  obtain ⟨hle, -, -, hfirst⟩ := find_eq_some_iff.mp hnext
  apply find_of_absent (by omega)
  intro j hj hjn hend
  obtain ⟨hcrlf, hsecond⟩ := headEnd_iff.mp hend
  by_cases hjp : j = p
  · rw [hjp] at hsecond
    exact hfirst (p + 2) le_rfl (by omega) hsecond
  · by_cases hjs : j = p + 1
    · -- there the second byte of the line end stands
      obtain ⟨rest, hrest⟩ := hline
      obtain ⟨rest', hrest'⟩ := hcrlf
      rw [hjs, ← List.drop_drop, ← hrest] at hrest'
      cases hrest'
    · exact hfirst j (by omega) hjn hcrlf

/-- **The scan applies the lines** up to the blank one, in order. -/
theorem scanHeaders_eq_foldlM {raw : Bytes} {p : Nat} (hline : crlf <+: raw.drop p)
    (req : HttpRequest) :
    scanHeaders raw ((find raw headEnd p).getD raw.length) (p + 2) req =
      ((completeLines (raw.drop (p + 2))).takeWhile fun line => !line.isEmpty).foldlM
        applyHeader req := by
  induction hmeasure : raw.length - p using Nat.strongRecOn generalizing p req with
  | _ n ih =>
      have hbound : p + 2 ≤ raw.length := by
        have hlength := hline.length_le
        rw [List.length_drop] at hlength
        have hcrlf : crlf.length = 2 := rfl
        omega
      rw [scanHeaders_eq]
      cases hnext : find raw crlf (p + 2) with
      | none =>
          rw [find_drop hbound, Option.map_eq_none_iff] at hnext
          rw [completeLines_none hnext]
          split_ifs <;> rfl
      | some next =>
          obtain ⟨hle, hlength, hpre, -⟩ := find_eq_some_iff.mp hnext
          rw [completeLines_drop hbound hnext]
          by_cases hempty : next = p + 2
          · have hend : find raw headEnd p = some p := by
              rw [find_eq_some_iff]
              exact ⟨le_rfl, by omega, headEnd_iff.mpr ⟨hline, hempty ▸ hpre⟩,
                fun j hj hjp => absurd hjp (by omega)⟩
            rw [hend, Option.getD_some, if_neg (by omega), hempty, Nat.sub_self]
            rfl
          · have hlimit : next ≤ (find raw headEnd next).getD raw.length := by
              cases hend : find raw headEnd next with
              | none => exact hlength
              | some i => exact (find_eq_some_iff.mp hend).1
            have hkeep : (!(substr raw (p + 2) (next - (p + 2))).isEmpty) = true := by
              rw [Bool.not_eq_true', List.isEmpty_eq_false_iff, ← List.length_pos_iff, substr,
                List.length_take, List.length_drop]
              omega
            rw [find_headEnd_of_line hline hnext hempty, if_pos (by omega)]
            dsimp only
            rw [if_neg (by omega), List.takeWhile_cons, if_pos hkeep, List.foldlM_cons]
            congr 1
            funext req'
            exact ih _ (by omega) hpre req' rfl

/-- An accepted request has applied its header lines to a fresh record. -/
theorem foldlM_headerLines {raw leftover : Bytes} {prior req : HttpRequest}
    (h : parseHttpRequest raw prior = some (req, leftover)) :
    ∃ start scanned : HttpRequest,
      (headerLines raw).foldlM applyHeader start = some scanned ∧
      req.contentLength = scanned.contentLength := by
  unfold parseHttpRequest at h
  simp only [Option.bind_eq_bind, Option.bind_eq_some_iff] at h
  obtain ⟨lineEnd, hline, ⟨method, target⟩, -, scanned, hscan, path, -, query, -, hreq⟩ := h
  obtain ⟨-, -, hpre, -⟩ := find_eq_some_iff.mp hline
  rw [scanHeaders_eq_foldlM hpre] at hscan
  have hlines : headerLines raw =
      (completeLines (raw.drop (lineEnd + 2))).takeWhile fun line => !line.isEmpty := by
    rw [headerLines, completeLines_some hline, List.tail_cons]
  rw [← hlines] at hscan
  cases hreq
  exact ⟨_, scanned, hscan, rfl⟩

/-- The trimmed value of a line with the given name. -/
def headerValue (name : String) (headerLine : Bytes) : Option Bytes :=
  match find headerLine [colon] 0 with
  | none => none
  | some i =>
      if toLower (trimSpaces (substr headerLine 0 i)) = ascii name then
        some (trimSpaces (headerLine.drop (i + 1)))
      else none

/-- The values of the Content-Length lines, in order. -/
def contentLengths (raw : Bytes) : List Bytes :=
  (headerLines raw).filterMap (headerValue "content-length")

/-- What one line does to the length. -/
theorem contentLength_applyHeader {req req' : HttpRequest} {line : Bytes}
    (h : applyHeader req line = some req') :
    (headerValue "content-length" line = none ∧ req'.contentLength = req.contentLength) ∨
      ∃ value, headerValue "content-length" line = some value ∧
        parseContentLength value = some req'.contentLength := by
  unfold applyHeader at h
  unfold headerValue
  cases hfind : find line [colon] 0 with
  | none =>
      rw [hfind] at h
      cases h
      exact Or.inl ⟨rfl, rfl⟩
  | some i =>
      rw [hfind] at h
      dsimp only at h ⊢
      by_cases hname : toLower (trimSpaces (substr line 0 i)) = ascii "content-length"
      · right
        rw [hname, if_neg (by decide), if_neg (by decide), if_pos rfl,
          Option.map_eq_some_iff] at h
        obtain ⟨v, hv, rfl⟩ := h
        exact ⟨_, if_pos hname, hv⟩
      · left
        refine ⟨if_neg hname, ?_⟩
        rw [if_neg hname] at h
        split_ifs at h <;> cases h <;> rfl

/-- What all lines do to it: the last length counts, and each of them was read. -/
theorem contentLength_foldlM {lines : List Bytes} {req req' : HttpRequest}
    (h : lines.foldlM applyHeader req = some req') :
    (lines.filterMap (headerValue "content-length") = [] ∧
        req'.contentLength = req.contentLength ∨
      ∃ value ∈ lines.filterMap (headerValue "content-length"),
        parseContentLength value = some req'.contentLength) ∧
    ∀ value ∈ lines.filterMap (headerValue "content-length"),
      (parseContentLength value).isSome = true := by
  induction lines generalizing req with
  | nil =>
      cases h
      exact ⟨Or.inl ⟨rfl, rfl⟩, nofun⟩
  | cons line lines ih =>
      rw [List.foldlM_cons, Option.bind_eq_bind, Option.bind_eq_some_iff] at h
      obtain ⟨next, hnext, hrest⟩ := h
      obtain ⟨hlast, hall⟩ := ih hrest
      rcases contentLength_applyHeader hnext with ⟨hnone, hsame⟩ | ⟨value, hvalue, hread⟩
      · rw [List.filterMap_cons_none hnone, ← hsame]
        exact ⟨hlast, hall⟩
      · rw [List.filterMap_cons_some hvalue]
        constructor
        · right
          rcases hlast with ⟨-, hsame⟩ | ⟨later, hlater, hlaterRead⟩
          · exact ⟨value, List.mem_cons_self, hsame ▸ hread⟩
          · exact ⟨later, List.mem_cons_of_mem _ hlater, hlaterRead⟩
        · rw [List.forall_mem_cons]
          exact ⟨Option.isSome_of_eq_some hread, hall⟩

/-- The value is a number of plain digits, and it is `n`. -/
def DenotesLength (value : Bytes) (n : Int) : Prop :=
  value ≠ [] ∧ (∀ c ∈ value, isdigit c = true) ∧ (digitsValue 10 value : Int) = n

instance (value : Bytes) (n : Int) : Decidable (DenotesLength value n) :=
  inferInstanceAs (Decidable (_ ∧ _ ∧ _))

/-- The value has nothing that `strtol` passes over: no whitespace and no sign in front,
and no NUL byte. -/
def PlainLength (value : Bytes) : Prop :=
  (∀ c ∈ value.head?, isspace c = false ∧ c ≠ minus ∧ c ≠ plus) ∧ (0 : UInt8) ∉ value

instance (value : Bytes) : Decidable (PlainLength value) :=
  inferInstanceAs (Decidable (_ ∧ _))

/-- All lengths are plain, and no two lines have different ones. -/
def UnambiguousLengths (raw : Bytes) : Prop :=
  (∀ value ∈ contentLengths raw, PlainLength value) ∧
    ∀ first ∈ contentLengths raw, ∀ second ∈ contentLengths raw,
      digitsValue 10 first = digitsValue 10 second

instance (raw : Bytes) : Decidable (UnambiguousLengths raw) :=
  inferInstanceAs (Decidable (_ ∧ _))

/-- A plain value that is read is what its digits say. -/
theorem denotes_of_parseContentLength {value : Bytes} {v : Int}
    (h : parseContentLength value = some v) (hplain : PlainLength value) :
    DenotesLength value v := by
  obtain ⟨hhead, hnul⟩ := hplain
  have hstring : cString value = value :=
    cString_of_plain fun c hc hzero => hnul (hzero ▸ hc)
  unfold parseContentLength at h
  rw [hstring, Option.bind_eq_bind, Option.bind_eq_some_iff] at h
  obtain ⟨w, hw, hsome⟩ := h
  obtain rfl : w = v := by
    split_ifs at hsome
    exact Option.some.inj hsome
  obtain ⟨converted, hconverted, hrange, hrest, rfl⟩ := accepted_eq_some.mp hw
  obtain ⟨negative, sign, digits, hsign, hne, hdigits, hsplit, hvalue⟩ := strtol_sound hconverted
  have hspace : value.dropWhile isspace = value := by
    cases value with
    | nil => rfl
    | cons c rest => exact List.dropWhile_cons_of_neg (by simp [(hhead c rfl).1])
  rw [hrest, List.append_nil, hspace] at hsplit
  cases hsign with
  | absent => exact ⟨hsplit ▸ hne, hsplit ▸ hdigits, hsplit ▸ (hvalue hrange).symm⟩
  | positive => exact absurd rfl (hhead plus (by rw [← hsplit]; rfl)).2.2
  | negative => exact absurd rfl (hhead minus (by rw [← hsplit]; rfl)).2.1

/-- What denotes a length is plain. -/
theorem plain_of_denotes {value : Bytes} {n : Int} (h : DenotesLength value n) :
    PlainLength value := by
  obtain ⟨-, hdigits, -⟩ := h
  constructor
  · intro c hc
    obtain ⟨-, hspace, hminus, hplus, -⟩ := isdigit_spec c (hdigits c (List.mem_of_mem_head? hc))
    exact ⟨hspace, hminus, hplus⟩
  · intro hzero
    exact absurd (hdigits 0 hzero) (by decide)

/-- **When the announced length is the one that is used.**  In an accepted request every
Content-Length line denotes the length exactly when all of them are plain and no two of
them differ. -/
theorem lengthsDenote_iff {raw leftover : Bytes} {prior req : HttpRequest}
    (h : parseHttpRequest raw prior = some (req, leftover)) :
    (∀ value ∈ contentLengths raw, DenotesLength value req.contentLength) ↔
      UnambiguousLengths raw := by
  obtain ⟨start, scanned, hscan, hlength⟩ := foldlM_headerLines h
  obtain ⟨hlast, hall⟩ := contentLength_foldlM hscan
  rw [← hlength] at hlast
  constructor
  · intro hdenote
    refine ⟨fun value hvalue => plain_of_denotes (hdenote value hvalue), ?_⟩
    intro first hfirst second hsecond
    have hsame := (hdenote first hfirst).2.2.trans (hdenote second hsecond).2.2.symm
    exact Int.ofNat.inj hsame
  · intro hboth value hvalue
    obtain ⟨hplain, hsame⟩ := hboth
    rcases hlast with ⟨hnone, -⟩ | ⟨last, hmem, hread⟩
    · have habsent : contentLengths raw = [] := hnone
      rw [habsent] at hvalue
      cases hvalue
    · obtain ⟨v, hv⟩ := Option.isSome_iff_exists.mp (hall value hvalue)
      obtain ⟨hne, hdigits, -⟩ := denotes_of_parseContentLength hv (hplain value hvalue)
      refine ⟨hne, hdigits, ?_⟩
      rw [hsame value hvalue last hmem]
      exact (denotes_of_parseContentLength hread (hplain last hmem)).2.2

/-- A request whose two lengths are written differently. -/
def repeatedLength : Bytes :=
  ascii "PUT /m HTTP/1.1" ++ crlf ++ ascii "Content-Length: 2" ++ crlf ++
    ascii "content-length:02 " ++ crlf ++ crlf ++ ascii "17"

/-- Two lines with one length. -/
theorem lengthsDenote_iff_repeated :
    ∃ req leftover, parseHttpRequest repeatedLength {} = some (req, leftover) ∧
      ∀ value ∈ contentLengths repeatedLength, DenotesLength value req.contentLength := by
  have hparse : parseHttpRequest repeatedLength {} = some
      ({ method := ascii "PUT", path := ascii "/m", contentLength := 2 }, ascii "17") := by
    decide +kernel
  exact ⟨_, _, hparse, (lengthsDenote_iff hparse).mpr (by decide +kernel)⟩

/-- A request whose length is followed by a NUL byte and more. -/
def hiddenLength : Bytes :=
  ascii "PUT /m HTTP/1.1" ++ crlf ++ ascii "Content-Length: 2" ++ [0] ++ ascii "junk" ++ crlf ++
    crlf ++ ascii "17"

/-- A NUL hides what follows the digits. -/
theorem length_hidden :
    ∃ req leftover, parseHttpRequest hiddenLength {} = some (req, leftover) ∧
      req.contentLength = 2 ∧
      ¬ ∀ value ∈ contentLengths hiddenLength, DenotesLength value req.contentLength :=
  ⟨{ method := ascii "PUT", path := ascii "/m", contentLength := 2 }, ascii "17",
    by decide +kernel, rfl, by decide +kernel⟩

end Nshmqtt

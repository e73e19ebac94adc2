import RunesIndexer.Spec.Ranges

/-! # Range headers

    A `Content-Range` header is free text. Cut at '/' and '-' it holds the total and the end
    of a range, and what the loop does with a response follows from these two numbers. A
    header without the pieces that are indexed is a panic, and extreme numbers wrap.
-/

namespace RunesIndexer

open MonadicFold

namespace Rpc

/-! ### The pieces of a header -/

/-- The text behind "bytes ". -/
def headerText (h : HttpHeader) : List Char := trimStartBytes h.value.toList

/-- What is before the first '/'. -/
def rangePart (text : List Char) : List Char := (text.splitOn '/').headD []

/-- The total, behind the first '/'. -/
def totalIn (text : List Char) : Option Nat := ((text.splitOn '/')[1]?).bind parseU64

/-- The end of the range, behind its first '-'. -/
def endIn (text : List Char) : Option Nat := (((rangePart text).splitOn '-')[1]?).bind parseU64

/-- A second piece is there if the separator is. -/
theorem splitOn_getElem?_one {c : Char} (s : List Char) :
    ((s.splitOn c)[1]?).isSome ↔ c ∈ s := by
  by_cases hc : c ∈ s
  · obtain ⟨s₁, s₂, rfl, hs₁⟩ := List.eq_append_cons_of_mem hc
    rw [List.splitOn_append_cons_self_of_not_mem hs₁]
    cases hs : s₂.splitOn c with
    | nil => exact absurd hs (List.splitOn_ne_nil c s₂)
    | cons piece pieces => simp
  · rw [List.splitOn_eq_singleton hc]
    simp [hc]

/-- The index that the code uses without a check. -/
theorem indexAt_splitOn_one {c : Char} (s : List Char) :
    (c ∉ s ∧ indexAt (s.splitOn c) 1 = .error .outOfBounds) ∨
    c ∈ s ∧ ∃ piece, (s.splitOn c)[1]? = some piece ∧ indexAt (s.splitOn c) 1 = .ok piece := by
  have hsome := splitOn_getElem?_one (c := c) s
  unfold indexAt
  cases hs : (s.splitOn c)[1]? with
  | none =>
    rw [hs] at hsome
    exact .inl ⟨fun hc => by simpa using hsome.mpr hc, rfl⟩
  | some piece =>
    rw [hs] at hsome
    exact .inr ⟨hsome.mp rfl, piece, rfl, rfl⟩

/-- The header is read piece by piece. -/
theorem nextRange_eq (h : HttpHeader) :
    nextRange h.value = (indexAt ((headerText h).splitOn '/') 1).bind fun piece =>
      match parseU64 piece with
      | none => .ok none
      | some total => (indexAt ((rangePart (headerText h)).splitOn '-') 1).bind fun piece =>
        match parseU64 piece with
        | none => .ok none
        | some e => .ok (some (split e total maxResponseBytes)) := by
  have hfirst : indexAt ((headerText h).splitOn '/') 0 = .ok (rangePart (headerText h)) := by
    unfold rangePart
    cases hs : (headerText h).splitOn '/' with
    | nil => exact absurd hs (List.splitOn_ne_nil _ _)
    | cons piece pieces => rfl
  unfold nextRange
  dsimp only
  rw [show trimStartBytes h.value.toList = headerText h from rfl, hfirst]
  rfl

/-- What the code makes of a header: a panic for each of the two pieces that may be missing,
    nothing if a piece is no number, or the range behind the reported one. -/
theorem nextRange_cases (h : HttpHeader) :
    ('/' ∉ headerText h ∧ nextRange h.value = .error .outOfBounds) ∨
    ('/' ∈ headerText h ∧ totalIn (headerText h) = none ∧ nextRange h.value = .ok none) ∨
    ∃ total, '/' ∈ headerText h ∧ totalIn (headerText h) = some total ∧
      (('-' ∉ rangePart (headerText h) ∧ nextRange h.value = .error .outOfBounds) ∨
      ('-' ∈ rangePart (headerText h) ∧ endIn (headerText h) = none ∧
        nextRange h.value = .ok none) ∨
      ∃ e, '-' ∈ rangePart (headerText h) ∧ endIn (headerText h) = some e ∧
        nextRange h.value = .ok (some (split e total maxResponseBytes))) := by
  rw [nextRange_eq]
  unfold totalIn endIn
  -- the total is read before the range, so a total that is no number hides a range without a dash
  rcases indexAt_splitOn_one (c := '/') (headerText h) with ⟨hslash, hindex⟩ |
    ⟨hslash, piece, hpiece, hindex⟩
  · rw [hindex]
    exact .inl ⟨hslash, rfl⟩
  rw [hindex, hpiece]
  simp only [Except.bind, Option.bind_some]
  cases htotal : parseU64 piece with
  | none => exact .inr (.inl ⟨hslash, rfl, rfl⟩)
  | some total =>
    refine .inr (.inr ⟨total, hslash, rfl, ?_⟩)
    rcases indexAt_splitOn_one (c := '-') (rangePart (headerText h)) with ⟨hdash, hindex'⟩ |
      ⟨hdash, piece', hpiece', hindex'⟩
    · rw [hindex']
      exact .inl ⟨hdash, rfl⟩
    rw [hindex', hpiece']
    simp only [Option.bind_some]
    cases he : parseU64 piece' with
    | none => exact .inr (.inl ⟨hdash, rfl, rfl⟩)
    | some e => exact .inr (.inr ⟨e, hdash, rfl, rfl⟩)

/-! ### What follows from a response -/

/-- The total and the end that the loop reads in a response. -/
def reported (response : HttpResponse) : Option (Nat × Nat) :=
  if response.status = 200 then none
  else (response.headers.find? isContentRange).bind fun h =>
    (totalIn (headerText h)).bind fun total => (endIn (headerText h)).map fun e => (total, e)

theorem reported_eq_some {response : HttpResponse} {total e : Nat} :
    reported response = some (total, e) ↔ response.status ≠ 200 ∧
      ∃ h, response.headers.find? isContentRange = some h ∧
        totalIn (headerText h) = some total ∧ endIn (headerText h) = some e := by
  unfold reported
  by_cases hstatus : response.status = 200
  · simp [hstatus]
  · simp [hstatus, Option.bind_eq_some_iff]

/-- A number that is read fits `u64`. -/
theorem parseU64_lt {s : List Char} {n : Nat} (h : parseU64 s = some n) : n < u64Bound := by
  unfold parseU64 at h
  dsimp only at h
  split at h
  · cases h
  · split at h
    · next hlt =>
      cases h
      exact hlt
    · cases h

theorem reported_lt {response : HttpResponse} {total e : Nat}
    (h : reported response = some (total, e)) : total < u64Bound ∧ e < u64Bound := by
  obtain ⟨-, header, -, htotal, he⟩ := reported_eq_some.mp h
  obtain ⟨piece, -, hpiece⟩ := Option.bind_eq_some_iff.mp htotal
  obtain ⟨piece', -, hpiece'⟩ := Option.bind_eq_some_iff.mp he
  exact ⟨parseU64_lt hpiece, parseU64_lt hpiece'⟩

/-- The two pieces are there whenever the code gets to their index. -/
structure Cuttable (text : List Char) : Prop where
  slash : '/' ∈ text
  dash : (totalIn text).isSome → '-' ∈ rangePart text

/-- The header of a response, unless the loop does not look at it, can be cut. -/
def HeaderCuttable (response : HttpResponse) : Prop :=
  response.status = 200 ∨
    ∀ h, response.headers.find? isContentRange = some h → Cuttable (headerText h)

/-- Where the loop goes after a response. -/
theorem receive_cases (buf : List UInt8) (response : HttpResponse) :
    (¬ HeaderCuttable response ∧ receive buf response = .error .outOfBounds) ∨
    HeaderCuttable response ∧
      ((reported response = none ∧ receive buf response = .ok (.done (buf ++ response.body))) ∨
      ∃ total e, reported response = some (total, e) ∧
        receive buf response = .ok (
          if (split e total maxResponseBytes).2 ≤ (split e total maxResponseBytes).1 then
            .done (buf ++ response.body)
          else .again (split e total maxResponseBytes) (buf ++ response.body))) := by
  unfold reported receive
  by_cases hstatus : response.status = 200
  · rw [if_pos hstatus, if_pos hstatus]
    exact .inr ⟨.inl hstatus, .inl ⟨rfl, rfl⟩⟩
  rw [if_neg hstatus, if_neg hstatus]
  cases hfind : response.headers.find? isContentRange with
  | none =>
    have hcut : HeaderCuttable response := by
      refine .inr fun h heq => ?_
      rw [hfind] at heq
      cases heq
    exact .inr ⟨hcut, .inl ⟨rfl, rfl⟩⟩
  | some header =>
    have hcut : HeaderCuttable response ↔ Cuttable (headerText header) := by
      unfold HeaderCuttable
      simp [hstatus, hfind]
    rw [hcut]
    simp only [Option.bind_some]
    -- one case for each place where the parsing can end
    rcases nextRange_cases header with ⟨hslash, hnext⟩ | ⟨hslash, htotal, hnext⟩ |
      ⟨total, hslash, htotal, ⟨hdash, hnext⟩ | ⟨hdash, he, hnext⟩ | ⟨e, hdash, he, hnext⟩⟩
    · rw [hnext]
      exact .inl ⟨fun h => hslash h.slash, rfl⟩
    · rw [hnext, htotal]
      exact .inr ⟨⟨hslash, fun h => by rw [htotal] at h; cases h⟩, .inl ⟨rfl, rfl⟩⟩
    · rw [hnext]
      exact .inl ⟨fun h => hdash (h.dash (by rw [htotal]; rfl)), rfl⟩
    · rw [hnext, htotal, he]
      exact .inr ⟨⟨hslash, fun _ => hdash⟩, .inl ⟨rfl, rfl⟩⟩
    · rw [hnext, htotal, he]
      refine .inr ⟨⟨hslash, fun _ => hdash⟩, .inr ⟨total, e, rfl, ?_⟩⟩
      simp only [bind, Except.bind]
      split <;> rfl

/-! ### Exact arithmetic -/

/-- `u64::checked_add` -/
def checkedAdd64 (a b : Nat) : Option Nat := if a + b < u64Bound then some (a + b) else none

/-- `u64::checked_sub` -/
def checkedSub64 (a b : Nat) : Option Nat := if b ≤ a then some (a - b) else none

/-- `split`, if nothing in it wraps. -/
def splitExact («end» total limit : Nat) : Option (Nat × Nat) :=
  (checkedAdd64 «end» 1).bind fun start => (checkedAdd64 start limit).bind fun sum =>
    (if total ≤ sum then checkedSub64 total 1 else checkedSub64 sum 1).map fun «end» =>
      (start, «end»)

/-- `responseBytes`, if nothing in it wraps. -/
def responseBytesExact (range : Nat × Nat) : Option Nat :=
  (checkedSub64 range.2 range.1).bind fun length => (checkedAdd64 length 1).bind fun n =>
    checkedAdd64 n 999

theorem checkedAdd64_eq_some {a b n : Nat} (h : checkedAdd64 a b = some n) :
    n = a + b ∧ a + b < u64Bound ∧ u64Add a b = n := by
  unfold checkedAdd64 at h
  split at h
  · next hlt =>
    cases h
    exact ⟨rfl, hlt, u64Add_of_lt hlt⟩
  · cases h

theorem checkedSub64_eq_some {a b n : Nat} (ha : a < u64Bound) (h : checkedSub64 a b = some n) :
    n = a - b ∧ b ≤ a ∧ u64Sub a b = n := by
  unfold checkedSub64 at h
  split at h
  · next hle =>
    cases h
    exact ⟨rfl, hle, u64Sub_of_le hle ha⟩
  · cases h

/-- Nothing in `split` wraps exactly if there is something before the total and a full range
    after the end. -/
theorem splitExact_isSome {e total limit : Nat} :
    (splitExact e total limit).isSome ↔ 0 < total ∧ e + 1 + limit < u64Bound := by
  have hbound : 0 < u64Bound := by decide
  unfold splitExact checkedAdd64 checkedSub64
  by_cases hstart : e + 1 < u64Bound
  · by_cases hsum : e + 1 + limit < u64Bound
    · simp only [hstart, hsum, if_true, Option.bind_some, Option.isSome_map, and_true]
      by_cases hle : total ≤ e + 1 + limit
      · rw [if_pos hle]
        by_cases htotal : 1 ≤ total
        · simp [htotal]
          omega
        · simp [htotal]
          omega
      · rw [if_neg hle, if_pos (by omega)]
        simp
        omega
    · simp [hstart, hsum]
  · simp [hstart]
    omega

/-- What the code computes then, and where it ends. -/
theorem splitExact_eq_some {e total limit : Nat} {range : Nat × Nat} (htotal : total < u64Bound)
    (h : splitExact e total limit = some range) :
    split e total limit = range ∧ range.1 = e + 1 ∧ range.2 < total ∧
      range.2 < e + 1 + limit := by
  unfold splitExact at h
  obtain ⟨start, hstart, h⟩ := Option.bind_eq_some_iff.mp h
  obtain ⟨sum, hsum, h⟩ := Option.bind_eq_some_iff.mp h
  obtain ⟨last, hlast, rfl⟩ := Option.map_eq_some_iff.mp h
  obtain ⟨rfl, -, hstart'⟩ := checkedAdd64_eq_some hstart
  obtain ⟨rfl, hlt, hsum'⟩ := checkedAdd64_eq_some hsum
  unfold split
  simp only [hstart', hsum']
  by_cases hle : total ≤ e + 1 + limit
  · rw [if_pos hle] at hlast ⊢
    obtain ⟨rfl, hpos, hsub⟩ := checkedSub64_eq_some htotal hlast
    exact ⟨by rw [hsub], trivial, by omega, by omega⟩
  · rw [if_neg hle] at hlast ⊢
    obtain ⟨rfl, hpos, hsub⟩ := checkedSub64_eq_some hlt hlast
    exact ⟨by rw [hsub], trivial, by omega, by omega⟩

/-- The size of a range that is no longer than `limit` and a margin. -/
theorem responseBytesExact_eq {range : Nat × Nat} (hle : range.1 ≤ range.2)
    (hlt : range.2 < u64Bound) (hbytes : range.2 - range.1 + 1000 < u64Bound) :
    responseBytesExact range = some (responseBytes range) := by
  have hsub : u64Sub range.2 range.1 = range.2 - range.1 := u64Sub_of_le hle hlt
  have hone : u64Add (range.2 - range.1) 1 = range.2 - range.1 + 1 := u64Add_of_lt (by omega)
  have hmargin : u64Add (range.2 - range.1 + 1) 999 = range.2 - range.1 + 1 + 999 :=
    u64Add_of_lt (by omega)
  unfold responseBytesExact responseBytes checkedSub64 checkedAdd64
  rw [hsub, hone, hmargin, if_pos hle, Option.bind_some, if_pos (by omega), Option.bind_some,
    if_pos (by omega)]

/-! ### Responses without a trap -/

/-- The loop stops with everything collected, or asks for a range behind the reported end and
    before the total; nothing traps or wraps. -/
inductive Handled (buf : List UInt8) (response : HttpResponse) : Prop
  | stop (hdone : receive buf response = .ok (.done (buf ++ response.body)))
      (hexact : ∀ total e, reported response = some (total, e) →
        (splitExact e total maxResponseBytes).isSome)
  | next {total e : Nat} {range : Nat × Nat} (hreported : reported response = some (total, e))
      (hexact : splitExact e total maxResponseBytes = some range)
      (hagain : receive buf response = .ok (.again range (buf ++ response.body)))
      (hstart : range.1 = e + 1) (hle : range.1 ≤ range.2) (hend : range.2 < total)
      (hbytes : responseBytesExact range = some (responseBytes range))

/-- A response is handled exactly if its header can be cut, and the numbers in it, if there
    are two, leave room: something before the total, a full range after the end. -/
theorem receive_handled_iff (buf : List UInt8) (response : HttpResponse) :
    Handled buf response ↔ HeaderCuttable response ∧
      ∀ total e, reported response = some (total, e) →
        0 < total ∧ e + 1 + maxResponseBytes < u64Bound := by
  constructor
  · intro h
    rcases receive_cases buf response with ⟨-, htrap⟩ | ⟨hcut, -⟩
    · cases h with
      | stop hdone => rw [htrap] at hdone; cases hdone
      | next _ _ hagain => rw [htrap] at hagain; cases hagain
    · refine ⟨hcut, fun total e hreported => ?_⟩
      cases h with
      | stop _ hexact => exact splitExact_isSome.mp (hexact total e hreported)
      | next hreported' hexact =>
        rw [hreported'] at hreported
        cases hreported
        exact splitExact_isSome.mp (by rw [hexact]; rfl)
  · intro ⟨hcut, hroom⟩
    rcases receive_cases buf response with ⟨hno, -⟩ | ⟨-, ⟨hnone, hdone⟩ |
      ⟨total, e, hreported, hreceive⟩⟩
    · exact absurd hcut hno
    · refine .stop hdone fun total e hreported => ?_
      rw [hnone] at hreported
      cases hreported
    · have hsome := splitExact_isSome.mpr (hroom total e hreported)
      obtain ⟨range, hrange⟩ := Option.isSome_iff_exists.mp hsome
      have htotal := (reported_lt hreported).1
      obtain ⟨hsplit, hstart, hend, hsize⟩ := splitExact_eq_some htotal hrange
      rw [hsplit] at hreceive
      -- the last piece stops, any other asks for a range that fits
      by_cases hlast : range.2 ≤ range.1
      · rw [if_pos hlast] at hreceive
        refine .stop hreceive fun total' e' hreported' => ?_
        rw [hreported] at hreported'
        cases hreported'
        exact hsome
      · rw [if_neg hlast] at hreceive
        have hbig : maxResponseBytes + 1000 < u64Bound := by decide
        exact .next hreported hrange hreceive hstart (by omega) hend
          (responseBytesExact_eq (by omega) (by omega) (by omega))

/-- The answer to an unsatisfiable range traps, and a total of zero wraps. -/
theorem receive_traps :
    receive [] ⟨416, [⟨"Content-Range", "bytes */1234"⟩], []⟩ = .error .outOfBounds ∧
    ¬ Handled [] ⟨416, [⟨"Content-Range", "bytes */1234"⟩], []⟩ ∧
    receive [] ⟨206, [⟨"Content-Range", "bytes 0-0/0"⟩], []⟩ =
      .ok (.again (1, 2 ^ 64 - 1) []) ∧
    ¬ Handled [] ⟨206, [⟨"Content-Range", "bytes 0-0/0"⟩], []⟩ := by
  have htrap : receive [] ⟨416, [⟨"Content-Range", "bytes */1234"⟩], []⟩ =
      .error .outOfBounds := by decide
  have hwrap : receive [] ⟨206, [⟨"Content-Range", "bytes 0-0/0"⟩], []⟩ =
      .ok (.again (1, 2 ^ 64 - 1) []) := by decide
  refine ⟨htrap, fun h => ?_, hwrap, fun h => ?_⟩
  · cases h with
    | stop hdone => rw [htrap] at hdone; cases hdone
    | next _ _ hagain => rw [htrap] at hagain; cases hagain
  · cases h with
    | stop hdone => rw [hwrap] at hdone; cases hdone
    | next hreported _ _ _ _ hend =>
      -- nothing ends before a total of zero
      have hzero : reported ⟨206, [⟨"Content-Range", "bytes 0-0/0"⟩], []⟩ = some (0, 0) := by
        decide
      rw [hzero] at hreported
      cases hreported
      exact absurd hend (Nat.not_lt_zero _)

end Rpc

end RunesIndexer

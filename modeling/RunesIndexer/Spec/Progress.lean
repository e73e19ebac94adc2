import RunesIndexer.Spec.Headers
import Mathlib.Data.List.Chain

/-! # Progress of the range loop

    The next range starts right behind the end that a response reports, whatever was asked
    for. A run makes progress exactly as far as the reported ends do; then it ends, because
    the starts of its ranges grow within `u64`.
-/

namespace RunesIndexer

open Resumption MonadicFold

namespace Rpc

/-! ### Consecutive requests -/

/-- A call and its answer. -/
abbrev Exchange : Type := (q : HttpCall) × HttpReply q

/-- If `x` was answered, `R` holds of the range it asked for, the response and the range that
    `y` asks for. -/
def Follows (R : Nat × Nat → HttpResponse → Nat × Nat → Prop) (x y : Exchange) : Prop :=
  ∀ response, x.2 = .ok response → ∃ range range', askedRange x.1.args = some range ∧
    askedRange y.1.args = some range' ∧ R range response range'

/-- The next range starts behind the start of the range before it, and ends no sooner. -/
def Advances : Exchange → Exchange → Prop :=
  Follows fun range _ range' => range.1 < range'.1 ∧ range'.1 ≤ range'.2

/-- The response reports an end that is not before the range it answers, nor the last `u64`. -/
def Reaches : Exchange → Exchange → Prop :=
  Follows fun range response _ => ∃ total e, reported response = some (total, e) ∧
    range.1 ≤ e ∧ e + 1 < u64Bound

/-- The loop goes on with the next range. -/
def Continues : Exchange → Exchange → Prop :=
  Follows fun _ response range' => ∃ buf buf', receive buf response = .ok (.again range' buf')

/-- The range after a response, and the numbers it comes from. -/
theorem receive_eq_again {buf buf' : List UInt8} {response : HttpResponse} {range : Nat × Nat}
    (h : receive buf response = .ok (.again range buf')) :
    ∃ total e, reported response = some (total, e) ∧ range = split e total maxResponseBytes ∧
      range.1 < range.2 := by
  rcases receive_cases buf response with ⟨-, hreceive⟩ | ⟨-, ⟨-, hreceive⟩ |
    ⟨total, e, hreported, hreceive⟩⟩
  · rw [hreceive] at h
    cases h
  · rw [hreceive] at h
    cases h
  · rw [hreceive] at h
    by_cases hlast : (split e total maxResponseBytes).2 ≤ (split e total maxResponseBytes).1
    · rw [if_pos hlast] at h
      cases h
    · rw [if_neg hlast] at h
      cases h
      exact ⟨total, e, hreported, rfl, Nat.lt_of_not_le hlast⟩

theorem split_lt (e total limit : Nat) :
    (split e total limit).1 < u64Bound ∧ (split e total limit).2 < u64Bound := by
  have hbound : 0 < u64Bound := by decide
  refine ⟨Nat.mod_lt _ hbound, ?_⟩
  unfold split
  dsimp only
  split
  · exact Nat.mod_lt _ hbound
  · exact Nat.mod_lt _ hbound

/-- One continuing response: the range moves on exactly if the reported end has reached it. -/
theorem advances_iff {range range' : Nat × Nat} {buf buf' : List UInt8} {response : HttpResponse}
    (h : receive buf response = .ok (.again range' buf')) :
    (range.1 < range'.1 ∧ range'.1 ≤ range'.2) ↔
      ∃ total e, reported response = some (total, e) ∧ range.1 ≤ e ∧ e + 1 < u64Bound := by
  obtain ⟨total, e, hreported, hsplit, hlt⟩ := receive_eq_again h
  have he := (reported_lt hreported).2
  have hnext : range'.1 = u64Add e 1 := by rw [hsplit]; rfl
  constructor
  · intro hmoves
    have hmove := hmoves.1
    refine ⟨total, e, hreported, ?_⟩
    by_cases hwrap : e + 1 < u64Bound
    · rw [hnext, u64Add_of_lt hwrap] at hmove
      exact ⟨by omega, hwrap⟩
    · -- behind the last `u64` the range would start at zero again
      have hzero : u64Add e 1 = 0 := by
        unfold u64Add
        rw [show e + 1 = u64Bound by omega, Nat.mod_self]
      omega
  · intro ⟨total', e', hreported', hreach, hwrap⟩
    rw [hreported] at hreported'
    cases hreported'
    rw [hnext, u64Add_of_lt hwrap] at hlt ⊢
    exact ⟨by omega, by omega⟩

/-- On a run, pair by pair. -/
theorem isChain_advances_iff {l : Transcript} (h : l.IsChain Continues) :
    l.IsChain Advances ↔ l.IsChain Reaches := by
  rw [List.isChain_iff_getElem] at h
  rw [List.isChain_iff_getElem, List.isChain_iff_getElem]
  refine forall_congr' fun i => forall_congr' fun hi => forall_congr' fun response =>
    forall_congr' fun hok => ?_
  obtain ⟨range, range', hasked, hasked', buf, buf', hagain⟩ := h i hi response hok
  have hiff := @advances_iff range range' buf buf' response hagain
  constructor
  · intro ⟨range₁, range₂, h₁, h₂, hmove⟩
    rw [hasked] at h₁
    rw [hasked'] at h₂
    cases h₁
    cases h₂
    exact ⟨range, range', hasked, hasked', hiff.mp hmove⟩
  · intro ⟨range₁, range₂, h₁, h₂, hreach⟩
    rw [hasked] at h₁
    cases h₁
    exact ⟨range, range', hasked, hasked', hiff.mpr hreach⟩

/-! ### The calls of the loop -/

/-- A request is repeated until it is answered; nothing is between an answer and its end. -/
theorem retryRequest_calls {ans : (q : HttpCall) → HttpReply q → Prop}
    (R : Nat × Nat → HttpResponse → Nat × Nat → Prop) {args : HttpRequest} {left cycles : Nat}
    {s : Store} {l : Transcript} {r : Result RpcError Panic Store HttpResponse}
    (h : Proc.RunsVia ans ((retryRequest args left cycles).run s) l r) :
    l.IsChain (Follows R) ∧ (∃ x ∈ l.head?, x.1.args = args) ∧
      ∀ s' response, r = .ok s' response → ∃ x ∈ l.getLast?, x.1.args = args ∧ x.2 = .ok response := by
  refine retryRequest_induction (s := s) (P := fun l r => l.IsChain (Follows R) ∧
    (∃ x ∈ l.head?, x.1.args = args) ∧
    ∀ s' response, r = .ok s' response → ∃ x ∈ l.getLast?, x.1.args = args ∧ x.2 = .ok response)
    ?_ ?_ ?_ h
  · intro cycles response _
    refine ⟨.singleton _, ⟨_, rfl, rfl⟩, fun s' response' heq => ⟨_, rfl, rfl, ?_⟩⟩
    cases heq
    rfl
  · intro cycles e
    exact ⟨.singleton _, ⟨_, rfl, rfl⟩, fun s' response heq => by cases heq⟩
  · rintro cycles e l r ⟨hchain, -, hlast⟩
    refine ⟨?_, ⟨_, rfl, rfl⟩, fun s' response heq => ?_⟩
    -- a rejection is followed by anything
    · exact List.isChain_cons.mpr ⟨fun y _ response hok => (by cases hok), hchain⟩
    · obtain ⟨x, hx, hx'⟩ := hlast s' response heq
      exact ⟨x, by rw [List.getLast?_cons, Option.mem_def.mp hx]; rfl, hx'⟩

section

variable {J R : Type} (codec : Codec J R) (url : String) (payload : List UInt8) (subnetNodes : Nat)

variable {ans : (q : HttpCall) → HttpReply q → Prop}

/-- One response of the loop: the calls for its range, and either the end or the rest of the
    run behind its answer. -/
theorem makeRpcLoop_calls (S : Nat × Nat → HttpResponse → Nat × Nat → Prop) {fuel : Nat}
    {range : Nat × Nat} {buf : List UInt8} {capacity : Nat} {s : Store} {l : Transcript}
    {r : Result RpcError Panic Store (Option (List UInt8))}
    (h₁ : range.1 < u64Bound) (h₂ : range.2 < u64Bound)
    (h : Proc.RunsVia ans
      ((makeRpcLoop codec url payload subnetNodes (fuel + 1) range buf capacity).run s) l r) :
    (∃ x ∈ l.head?, askedRange x.1.args = some range) ∧
    ((l.IsChain (Follows S) ∧ ∀ s', r ≠ .ok s' none) ∨
    ∃ l₁ l₂ x s' response range' buf' capacity', l = l₁ ++ l₂ ∧ l₁.IsChain (Follows S) ∧
      x ∈ l₁.getLast? ∧ askedRange x.1.args = some range ∧ x.2 = .ok response ∧
      receive buf response = .ok (.again range' buf') ∧
      Proc.RunsVia ans
        ((makeRpcLoop codec url payload subnetNodes fuel range' buf' capacity').run s') l₂ r) := by
  have hasked := askedRange_partialRequest codec.uniq url payload h₁ h₂ subnetNodes
  rw [makeRpcLoop_run] at h
  -- the first request is answered, fails for good, or traps
  rcases h.of_bind with ⟨l₁, l₂, s₁, response, rfl, hcall, hrest⟩ | ⟨s₁, e, rfl, hcall⟩ |
    ⟨t, rfl, hcall⟩
  · obtain ⟨hchain, ⟨x, hx, hxargs⟩, hlast⟩ := retryRequest_calls S hcall
    obtain ⟨y, hy, hyargs, hyok⟩ := hlast s₁ response rfl
    refine ⟨⟨x, ?_, by rw [hxargs, hasked]⟩, ?_⟩
    · rw [List.head?_append, Option.mem_def.mp hx]
      rfl
    cases hcollect : collect buf capacity response with
    | error t =>
      rw [hcollect] at hrest
      obtain ⟨rfl, rfl⟩ := Proc.runsVia_trap.mp hrest
      exact .inl ⟨by rwa [List.append_nil], fun s' heq => by cases heq⟩
    | ok x =>
      obtain ⟨progress, capacity'⟩ := x
      rw [hcollect] at hrest
      cases progress with
      | done collected =>
        obtain ⟨rfl, rfl⟩ := Proc.runsVia_ok.mp hrest
        exact .inl ⟨by rwa [List.append_nil], fun s' heq => by cases heq⟩
      | again range' buf' =>
        exact .inr ⟨l₁, l₂, y, s₁, response, range', buf', capacity', rfl, hchain, hy,
          by rw [hyargs, hasked], hyok, (collect_eq_ok hcollect).1, hrest⟩
  · obtain ⟨hchain, ⟨x, hx, hxargs⟩, -⟩ := retryRequest_calls S hcall
    exact ⟨⟨x, hx, by rw [hxargs, hasked]⟩, .inl ⟨hchain, fun s' heq => by cases heq⟩⟩
  · obtain ⟨hchain, ⟨x, hx, hxargs⟩, -⟩ := retryRequest_calls S hcall
    exact ⟨⟨x, hx, by rw [hxargs, hasked]⟩, .inl ⟨hchain, fun s' heq => by cases heq⟩⟩

/-- The ranges that the loop goes on with are in `u64` again. -/
theorem again_lt {buf buf' : List UInt8} {response : HttpResponse} {range : Nat × Nat}
    (h : receive buf response = .ok (.again range buf')) :
    range.1 < u64Bound ∧ range.2 < u64Bound := by
  obtain ⟨total, e, -, rfl, -⟩ := receive_eq_again h
  exact split_lt e total maxResponseBytes

/-- Whatever the server sends, each response leads to the range that is asked for next. -/
theorem makeRpcLoop_continues {fuel : Nat} {range : Nat × Nat} {buf : List UInt8} {capacity : Nat}
    {s : Store} {l : Transcript} {r : Result RpcError Panic Store (Option (List UInt8))}
    (h₁ : range.1 < u64Bound) (h₂ : range.2 < u64Bound)
    (h : Proc.RunsVia ans
      ((makeRpcLoop codec url payload subnetNodes fuel range buf capacity).run s) l r) :
    l.IsChain Continues := by
  induction fuel generalizing range buf capacity s l with
  | zero =>
    obtain ⟨rfl, -⟩ := Proc.runsVia_ok.mp h
    exact .nil
  | succ fuel ih =>
    obtain ⟨-, ⟨hchain, -⟩ | ⟨l₁, l₂, x, s', response, range', buf', capacity', rfl, hchain, hx,
      hasked, hok, hreceive, hrest⟩⟩ := makeRpcLoop_calls codec url payload subnetNodes
        (fun _ response range' => ∃ buf buf', receive buf response = .ok (.again range' buf')) h₁ h₂ h
    · exact hchain
    obtain ⟨h₁', h₂'⟩ := again_lt hreceive
    refine hchain.append (ih h₁' h₂' hrest) fun x' hx' y hy response' hok' => ?_
    cases Option.mem_unique hx hx'
    rw [hok] at hok'
    cases hok'
    -- the next call is the first one of the rest
    cases fuel with
    | zero =>
      obtain ⟨rfl, -⟩ := Proc.runsVia_ok.mp hrest
      cases hy
    | succ fuel =>
      obtain ⟨⟨y', hy', hasked'⟩, -⟩ := makeRpcLoop_calls codec url payload subnetNodes
        (fun _ _ _ => True) h₁' h₂' hrest
      cases Option.mem_unique hy hy'
      exact ⟨range, range', hasked, hasked', buf, buf', hreceive⟩

/-- While the starts grow the loop does not outrun `u64`. -/
theorem makeRpcLoop_ends {fuel : Nat} {range : Nat × Nat} {buf : List UInt8} {capacity : Nat}
    {s : Store} {l : Transcript} {r : Result RpcError Panic Store (Option (List UInt8))}
    (h₁ : range.1 < u64Bound) (h₂ : range.2 < u64Bound) (hfuel : u64Bound < range.1 + fuel)
    (hchain : l.IsChain Advances)
    (h : Proc.RunsVia ans
      ((makeRpcLoop codec url payload subnetNodes fuel range buf capacity).run s) l r) :
    ∀ s', r ≠ .ok s' none := by
  induction fuel generalizing range buf capacity s l with
  | zero => omega
  | succ fuel ih =>
    obtain ⟨-, ⟨-, hends⟩ | ⟨l₁, l₂, x, s', response, range', buf', capacity', rfl, -, hx,
      hasked, hok, hreceive, hrest⟩⟩ := makeRpcLoop_calls codec url payload subnetNodes
        (fun _ _ _ => True) h₁ h₂ h
    · exact hends
    obtain ⟨h₁', h₂'⟩ := again_lt hreceive
    cases fuel with
    | zero => omega
    | succ fuel =>
      obtain ⟨⟨y, hy, hasked'⟩, -⟩ := makeRpcLoop_calls codec url payload subnetNodes
        (fun _ _ _ => True) h₁' h₂' hrest
      obtain ⟨range₁, range₂, hr₁, hr₂, hmove, -⟩ :=
        (List.isChain_append.mp hchain).2.2 x hx y hy response hok
      rw [hasked] at hr₁
      rw [hasked'] at hr₂
      cases hr₁
      cases hr₂
      exact ih h₁' h₂' (by omega) hchain.right_of_append hrest

/-- In a run against any server every request that follows a response asks for a range behind
    the start of the range before it, exactly if every such response reports an end that
    reaches the range it answers. Then the loop ends within the starts that `u64` has. -/
theorem makeRpcBuffer_progress (fuel : Nat) (endpoint : String) (params : J) (m : Nat)
    (s : Store) (l : Transcript) (r : Result RpcError Panic Store (Option (List UInt8)))
    (h : Proc.RunsVia ans ((makeRpcBuffer codec fuel url endpoint params m subnetNodes).run s) l r) :
    (l.IsChain Advances ↔ l.IsChain Reaches) ∧
    (l.IsChain Reaches → u64Bound < fuel → ∀ s', r ≠ .ok s' none) := by
  have hzero : (0, u64Sub m 1).1 < u64Bound := Nat.two_pow_pos 64
  have hlast : (0, u64Sub m 1).2 < u64Bound := Nat.mod_lt _ (Nat.two_pow_pos 64)
  rw [makeRpcBuffer_run] at h
  split at h
  · have hiff := isChain_advances_iff (makeRpcLoop_continues codec url
      (codec.toVec endpoint params) subnetNodes hzero hlast h)
    refine ⟨hiff, fun hreaches hfuel => ?_⟩
    exact makeRpcLoop_ends codec url (codec.toVec endpoint params) subnetNodes hzero hlast
      (by simpa using hfuel) (hiff.mpr hreaches) h
  -- without a buffer nothing is asked for
  · obtain ⟨rfl, rfl⟩ := Proc.runsVia_trap.mp h
    exact ⟨iff_of_true .nil .nil, fun _ _ s' heq => by cases heq⟩

end

/-- A compliant server, and fuel for every start. -/
theorem makeRpcBuffer_progress_sample :
    ∃ l r, Proc.RunsVia (Compliant (Sample.body 2))
        ((makeRpcBuffer Sample.codec (u64Bound + 1) "" "getblock" () 2 13).run Sample.store) l r ∧
      (l.IsChain Advances ↔ l.IsChain Reaches) ∧
      (l.IsChain Reaches → ∀ s', r ≠ .ok s' none) := by
  obtain ⟨l, r, hrun, -⟩ := rangeServer_via (Sample.body 2)
    ((makeRpcBuffer Sample.codec (u64Bound + 1) "" "getblock" () 2 13).run Sample.store)
  have hprogress := makeRpcBuffer_progress Sample.codec "" 13 (u64Bound + 1) "getblock" () 2
    Sample.store l r hrun
  exact ⟨l, r, hrun, hprogress.1, fun hreaches => hprogress.2 hreaches (Nat.lt_succ_self _)⟩

/-! ### A replayed response -/

namespace Sample

/-- An answer for the first byte of ten, but without the byte. -/
def firstByte : HttpResponse := ⟨206, [⟨"content-range", "bytes 0-0/10"⟩], []⟩

/-- A server that sends it to every request. -/
def Replays (q : HttpCall) (reply : HttpReply q) : Prop := reply = .ok (rpcTransform firstByte)

/-- The first request for a range, with the answer. -/
def exchange (range : Nat × Nat) : Exchange :=
  ⟨⟨(partialRequest codec.uniq "" [] range 13).1, (partialRequest codec.uniq "" [] range 13).2⟩,
    .ok (rpcTransform firstByte)⟩

/-- A run against this server: behind the first range the second one is asked for forever. -/
def exchanges : Nat → Nat × Nat → Transcript
  | 0, _ => []
  | fuel + 1, range => exchange range :: exchanges fuel (1, 9)

end Sample

theorem collect_firstByte {capacity : Nat} (h : capacity ≤ isizeMax) :
    collect [] capacity (rpcTransform Sample.firstByte) = .ok (.again (1, 9) [], capacity) := by
  have hfind : (rpcTransform Sample.firstByte).headers.find? isContentRange =
      some ⟨"content-range", "bytes 0-0/10"⟩ := by decide
  have hnext : nextRange "bytes 0-0/10" = .ok (some (1, 9)) := by decide
  have hreceive : receive [] (rpcTransform Sample.firstByte) = .ok (.again (1, 9) []) := by
    unfold receive
    rw [if_neg (by decide), hfind]
    dsimp only
    rw [hnext]
    rfl
  -- nothing is added to the buffer
  have hgrown : grown capacity (Progress.again (1, 9) []).buf.length = capacity :=
    if_pos (Nat.zero_le capacity)
  rw [collect_of_receive hreceive, hgrown, if_pos h]

theorem makeRpcLoop_replays {capacity : Nat} (h : capacity ≤ isizeMax) (fuel : Nat)
    (range : Nat × Nat) :
    Proc.RunsVia Sample.Replays
      ((makeRpcLoop Sample.codec "" [] 13 fuel range [] capacity).run Sample.store)
      (Sample.exchanges fuel range) (.ok Sample.store none) := by
  induction fuel generalizing range with
  | zero => exact .ok _ _
  | succ fuel ih =>
    rw [makeRpcLoop_run]
    unfold makeSingleRequest
    rw [retryRequest_run]
    refine .await rfl ?_
    simp only [Proc.bind, collect_firstByte h]
    exact ih (1, 9)

/-- Against it the loop asks for the same range again and again and never ends. -/
theorem makeRpcBuffer_repeats :
    ∃ server : (q : HttpCall) → HttpReply q → Prop, ∀ fuel, ∃ l, l.length = fuel ∧
      Proc.RunsVia server ((makeRpcBuffer Sample.codec fuel "" "getblock" () maxResponseBytes
        13).run Sample.store) l (.ok Sample.store none) ∧
      (3 ≤ fuel → ¬ l.IsChain Advances) := by
  have hlength : ∀ fuel range, (Sample.exchanges fuel range).length = fuel := by
    intro fuel
    induction fuel with
    | zero => intro range; rfl
    | succ fuel ih => intro range; exact congrArg (· + 1) (ih (1, 9))
  refine ⟨Sample.Replays, fun fuel => ⟨_, hlength fuel (0, u64Sub maxResponseBytes 1), ?_, ?_⟩⟩
  · rw [makeRpcBuffer_run, if_pos (by decide)]
    exact makeRpcLoop_replays (by decide) fuel _
  intro hfuel hchain
  obtain ⟨n, rfl⟩ := Nat.exists_eq_add_of_le' hfuel
  -- the second and the third request ask for the same range
  have hsame := (List.isChain_cons_cons.mp (List.isChain_cons_cons.mp hchain).2).1
  have hasked : askedRange (Sample.exchange (1, 9)).1.args = some (1, 9) :=
    askedRange_partialRequest _ _ _ (by decide) (by decide) 13
  obtain ⟨range₁, range₂, h₁, h₂, hmove, -⟩ := hsame _ rfl
  rw [hasked] at h₁ h₂
  cases h₁
  cases h₂
  exact absurd hmove (Nat.lt_irrefl _)

end Rpc

end RunesIndexer

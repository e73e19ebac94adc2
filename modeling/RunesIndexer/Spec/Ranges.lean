import RunesIndexer.Lib.Trace
import RunesIndexer.Model.Rpc
import RunesIndexer.Spec.Transaction

/-! # Reassembling a response

    Against a server that answers range requests, `make_rpc` collects the response piece
    by piece. The pieces follow each other without a gap, but when a single byte is left
    for the last of them the loop takes the range of that byte for the end.
-/

namespace RunesIndexer

open Resumption MonadicFold

namespace Rpc

/-! ### Numbers in headers -/

/-- A printed number is read back. -/
theorem parseU64_toDigits {n : Nat} (h : n < u64Bound) : parseU64 (Nat.toDigits 10 n) = some n := by
  have hdigits : ∀ c ∈ Nat.toDigits 10 n, c.isDigit = true :=
    fun c hc => Nat.isDigit_of_mem_toDigits (by decide) (by decide) hc
  have hall : (Nat.toDigits 10 n).all Char.isDigit = true := List.all_eq_true.mpr hdigits
  have hstrip : stripPlus (Nat.toDigits 10 n) = Nat.toDigits 10 n := by
    unfold stripPlus
    split
    · next rest heq =>
      -- a sign is no digit
      have := hdigits '+' (heq ▸ List.mem_cons_self)
      exact absurd this (by decide)
    · rfl
  unfold parseU64
  simp only [hstrip]
  rw [if_neg (by simp [hall, Nat.toDigits_ne_nil]), Nat.ofDigitChars_ten_toDigits, if_pos h]

theorem notMem_toDigits {c : Char} (hc : c.isDigit = false) (n : Nat) :
    c ∉ Nat.toDigits 10 n := by
  intro hmem
  rw [Nat.isDigit_of_mem_toDigits (by decide) (by decide) hmem] at hc
  cases hc

/-- `Content-Range: bytes a-e/total` -/
def contentRangeText (a e total : Nat) : String :=
  "bytes " ++ toString a ++ "-" ++ toString e ++ "/" ++ toString total

theorem trimStartBytes_digits (n : Nat) (rest : List Char) :
    trimStartBytes (Nat.toDigits 10 n ++ rest) = Nat.toDigits 10 n ++ rest := by
  have hb : 'b' ∉ Nat.toDigits 10 n := notMem_toDigits (by decide) n
  cases h : Nat.toDigits 10 n with
  | nil => exact absurd h Nat.toDigits_ne_nil
  | cons c digits =>
    have hne : c ≠ 'b' := by
      rintro rfl
      exact hb (h ▸ List.mem_cons_self)
    unfold trimStartBytes
    split
    · next heq => exact absurd (List.cons.inj heq).1 hne
    · rfl

/-- What the code reads in the header of a compliant server. -/
theorem nextRange_contentRangeText {a e total : Nat} (he : e < u64Bound)
    (htotal : total < u64Bound) :
    nextRange (contentRangeText a e total) = .ok (some (split e total maxResponseBytes)) := by
  have htext : (contentRangeText a e total).toList = "bytes ".toList ++
      (Nat.toDigits 10 a ++ ('-' :: Nat.toDigits 10 e) ++ '/' :: Nat.toDigits 10 total) := by
    simp [contentRangeText, String.toList_append]
  have htrim : trimStartBytes (contentRangeText a e total).toList =
      (Nat.toDigits 10 a ++ '-' :: Nat.toDigits 10 e) ++ '/' :: Nat.toDigits 10 total := by
    rw [htext, List.append_assoc]
    exact trimStartBytes_digits a _
  have hslash : '/' ∉ Nat.toDigits 10 a ++ '-' :: Nat.toDigits 10 e := by
    intro hmem
    rcases List.mem_append.mp hmem with hmem | hmem
    · exact notMem_toDigits (by decide) a hmem
    · rcases List.mem_cons.mp hmem with hmem | hmem
      · cases hmem
      · exact notMem_toDigits (by decide) e hmem
  have hsplit : (trimStartBytes (contentRangeText a e total).toList).splitOn '/' =
      [Nat.toDigits 10 a ++ '-' :: Nat.toDigits 10 e, Nat.toDigits 10 total] := by
    rw [htrim, List.splitOn_append_cons_self_of_not_mem hslash,
      List.splitOn_eq_singleton (notMem_toDigits (by decide) total)]
  have hrange : (Nat.toDigits 10 a ++ '-' :: Nat.toDigits 10 e).splitOn '-' =
      [Nat.toDigits 10 a, Nat.toDigits 10 e] := by
    rw [List.splitOn_append_cons_self_of_not_mem (notMem_toDigits (by decide) a),
      List.splitOn_eq_singleton (notMem_toDigits (by decide) e)]
  simp [nextRange, hsplit, hrange, indexAt, parseU64_toDigits he, parseU64_toDigits htotal,
    bind, Except.bind, pure, Except.pure]

/-! ### A range server -/

/-- A response body. -/
structure Body where
  bytes : List UInt8
  nonempty : bytes ≠ []

def Body.length (body : Body) : Nat := body.bytes.length

theorem Body.length_pos (body : Body) : 0 < body.length := List.length_pos_iff.mpr body.nonempty

/-- The end of what the server has of a range. -/
def Body.clip (body : Body) (e : Nat) : Nat := min e (body.length - 1)

theorem Body.clip_succ (body : Body) (e : Nat) : body.clip e + 1 = min (e + 1) body.length := by
  have hpos := body.length_pos
  unfold clip
  omega

theorem Body.length_take_clip (body : Body) (e : Nat) :
    (body.bytes.take (body.clip e + 1)).length = body.clip e + 1 := by
  rw [List.length_take, body.clip_succ]
  exact Nat.min_eq_left (Nat.min_le_right _ _)

/-- The bytes from `a` to `e`. -/
def Body.slice (body : Body) (a e : Nat) : List UInt8 := (body.bytes.drop a).take (e + 1 - a)

/-- Joining a slice to what comes before it. -/
theorem Body.take_append_slice (body : Body) {a e : Nat} (h : a ≤ e + 1) :
    body.bytes.take a ++ body.slice a e = body.bytes.take (e + 1) := by
  unfold slice
  obtain ⟨n, hn⟩ : ∃ n, e + 1 = a + n := ⟨e + 1 - a, by omega⟩
  rw [hn, Nat.add_sub_cancel_left, List.take_add]

/-- How a compliant server answers the request for a range. -/
inductive Served (body : Body) (range : Nat × Nat) (response : HttpResponse) : Prop
  /-- From the start it may send everything. -/
  | whole (hstart : range.1 = 0) (hstatus : response.status = 200)
      (hbody : response.body = body.bytes)
  /-- It sends what it has of the range, and says what that is. -/
  | ranged (hstatus : response.status ≠ 200)
      (hbody : response.body = body.slice range.1 (body.clip range.2))
      (hheader : ∃ h, response.headers.find? isContentRange = some h ∧
        h.value = contentRangeText range.1 (body.clip range.2) body.length)

/-- The two numbers in a `Range` header. -/
def readRangeText : List Char → Option (Nat × Nat)
  | 'b' :: 'y' :: 't' :: 'e' :: 's' :: '=' :: rest =>
    match rest.splitOn '-' with
    | [a, e] => (parseU64 a).bind fun a => (parseU64 e).map fun e => (a, e)
    | _ => none
  | _ => none

/-- The range that a request asks for. -/
def askedRange (args : HttpRequest) : Option (Nat × Nat) :=
  (args.headers.find? fun h => h.name = "Range").bind fun h => readRangeText h.value.toList

theorem readRangeText_rangeText {range : Nat × Nat} (h₁ : range.1 < u64Bound)
    (h₂ : range.2 < u64Bound) : readRangeText (rangeText range).toList = some range := by
  have htext : (rangeText range).toList = 'b' :: 'y' :: 't' :: 'e' :: 's' :: '=' ::
      (Nat.toDigits 10 range.1 ++ '-' :: Nat.toDigits 10 range.2) := by
    simp [rangeText, String.toList_append]
  have hsplit : (Nat.toDigits 10 range.1 ++ '-' :: Nat.toDigits 10 range.2).splitOn '-' =
      [Nat.toDigits 10 range.1, Nat.toDigits 10 range.2] := by
    rw [List.splitOn_append_cons_self_of_not_mem (notMem_toDigits (by decide) _),
      List.splitOn_eq_singleton (notMem_toDigits (by decide) _)]
  rw [htext]
  simp [readRangeText, hsplit, parseU64_toDigits h₁, parseU64_toDigits h₂]

theorem askedRange_partialRequest (uniq : List UInt8 → Nat × Nat → String) (url : String)
    (body : List UInt8) {range : Nat × Nat} (h₁ : range.1 < u64Bound) (h₂ : range.2 < u64Bound)
    (subnetNodes : Nat) :
    askedRange (partialRequest uniq url body range subnetNodes).1 = some range := by
  have hfind : (partialRequest uniq url body range subnetNodes).1.headers.find?
      (fun h => h.name = "Range") = some ⟨"Range", rangeText range⟩ := by
    simp [partialRequest]
  unfold askedRange
  rw [hfind]
  exact readRangeText_rangeText h₁ h₂

/-- The endpoint answers as a compliant range server, or the call is rejected. -/
def Compliant (body : Body) (q : HttpCall) (reply : HttpReply q) : Prop :=
  ∀ response, reply = .ok response → ∀ range, askedRange q.args = some range →
    ∃ served, Served body range served ∧ response = rpcTransform served

/-- The header of the range survives the transform. -/
theorem find?_rpcTransform (response : HttpResponse) :
    (rpcTransform response).headers.find? isContentRange =
      response.headers.find? isContentRange := by
  have hlower : toAsciiLowercase "Content-Range" = "content-range".toList := by decide
  have hkeep : ∀ h : HttpHeader, isContentRange h = true → shouldKeep h.name = true := by
    intro h hh
    unfold isContentRange at hh
    rw [decide_eq_true_eq, hlower] at hh
    simp [shouldKeep, hh]
  unfold rpcTransform
  dsimp only
  rw [List.find?_filter]
  congr 1
  funext h
  by_cases hh : isContentRange h = true
  · simp [hh, hkeep h hh]
  · simp [hh]

/-! ### Transcripts -/

/-- The calls of a run with their answers. -/
abbrev Transcript : Type := List ((q : HttpCall) × HttpReply q)

/-- The ranges that were answered with a response. -/
def delivered (l : Transcript) : List (Nat × Nat) :=
  l.filterMap fun x => match x.2 with
    | .ok _ => askedRange x.1.args
    | .error _ => none

/-- The first response. -/
def firstResponse (l : Transcript) : Option HttpResponse :=
  l.findSome? fun x => match x.2 with
    | .ok response => some response
    | .error _ => none

/-- The server sent everything at once. -/
def SentWhole (l : Transcript) : Prop :=
  ∃ response, firstResponse l = some response ∧ response.status = 200

/-- Some call was rejected. -/
def Rejected (l : Transcript) : Prop := ∃ q e, (⟨q, .error e⟩ : (q : HttpCall) × HttpReply q) ∈ l

/-- The ranges follow each other from byte `start` to right before byte `stop`. -/
def Body.Tiles (body : Body) : Nat → Nat → List (Nat × Nat) → Prop
  | start, stop, [] => start = stop
  | start, stop, range :: rest =>
    range.1 = start ∧ range.1 ≤ range.2 ∧ body.Tiles (body.clip range.2 + 1) stop rest

/-- The collected bytes are the response, and unless it came at once, in ranges that follow
    each other to its last byte. -/
def Body.Reassembled (body : Body) (l : Transcript) (buf : List UInt8) : Prop :=
  buf = body.bytes ∧ (SentWhole l ∨ body.Tiles 0 body.length (delivered l))

/-- One attempt, and what its answer leads to. -/
theorem retryRequest_run (args : HttpRequest) (left cycles : Nat) (s : Store) :
    (retryRequest args left cycles).run s = .await s ⟨args, cycles⟩ fun reply s' =>
      match reply with
      | .ok response => .ok s' response
      | .error e => match left with
        | 0 => .err s' (.retryLimit e)
        | left + 1 => (retryRequest args left (cycles + cycles / 10)).run s' := by
  cases left with
  | zero =>
    rw [retryRequest]
    show Proc.await s _ _ = _
    congr 1
    funext reply s'
    cases reply <;> rfl
  | succ left =>
    rw [retryRequest]
    show Proc.await s _ _ = _
    congr 1
    funext reply s'
    cases reply <;> rfl

/-- A request is repeated until it is answered or has been rejected too often: what holds of an
    answer and of a last rejection, and is kept by a rejection before it, holds of all calls. -/
theorem retryRequest_induction {ans : (q : HttpCall) → HttpReply q → Prop} {args : HttpRequest}
    {s : Store} {P : Transcript → Result RpcError Panic Store HttpResponse → Prop}
    (hanswered : ∀ cycles (response : HttpResponse), ans ⟨args, cycles⟩ (.ok response) →
      P [⟨⟨args, cycles⟩, .ok response⟩] (.ok s response))
    (hlimit : ∀ cycles e, P [⟨⟨args, cycles⟩, .error e⟩] (.err s (.retryLimit e)))
    (hrejected : ∀ cycles e l r, P l r → P (⟨⟨args, cycles⟩, .error e⟩ :: l) r)
    {left cycles : Nat} {l : Transcript} {r : Result RpcError Panic Store HttpResponse}
    (h : Proc.RunsVia ans ((retryRequest args left cycles).run s) l r) : P l r := by
  -- on the number of repetitions that are left; only the last rejection is an error
  induction left generalizing cycles l with
  | zero =>
    rw [retryRequest_run] at h
    obtain ⟨reply, l', hans, rfl, hr⟩ := Proc.runsVia_await.mp h
    cases reply with
    | ok response =>
      obtain ⟨rfl, rfl⟩ := Proc.runsVia_ok.mp hr
      exact hanswered cycles response hans
    | error e =>
      obtain ⟨rfl, rfl⟩ := Proc.runsVia_err.mp hr
      exact hlimit cycles e
  | succ left ih =>
    rw [retryRequest_run] at h
    obtain ⟨reply, l', hans, rfl, hr⟩ := Proc.runsVia_await.mp h
    cases reply with
    | ok response =>
      obtain ⟨rfl, rfl⟩ := Proc.runsVia_ok.mp hr
      exact hanswered cycles response hans
    | error e => exact hrejected cycles e l' r (ih hr)

/-- Either the repetitions run out, or a response comes, the first one of the run. -/
theorem retryRequest_via {ans : (q : HttpCall) → HttpReply q → Prop} {args : HttpRequest}
    {left cycles : Nat} {s : Store} {l : Transcript}
    {r : Result RpcError Panic Store HttpResponse}
    (h : Proc.RunsVia ans ((retryRequest args left cycles).run s) l r) :
    (Rejected l ∧ ∃ e, r = .err s (.retryLimit e)) ∨
    ∃ response cycles', r = .ok s response ∧ ans ⟨args, cycles'⟩ (.ok response) ∧
      delivered l = (askedRange args).toList ∧ firstResponse l = some response := by
  refine retryRequest_induction (P := fun l r => (Rejected l ∧ ∃ e, r = .err s (.retryLimit e)) ∨
    ∃ response cycles', r = .ok s response ∧ ans ⟨args, cycles'⟩ (.ok response) ∧
      delivered l = (askedRange args).toList ∧ firstResponse l = some response) ?_ ?_ ?_ h
  · intro cycles response hans
    refine .inr ⟨response, cycles, rfl, hans, ?_, rfl⟩
    cases hasked : askedRange args <;> simp [delivered, hasked]
  · intro cycles e
    exact .inl ⟨⟨_, e, List.mem_cons_self⟩, e, rfl⟩
  · rintro cycles e l r (⟨-, e', he'⟩ | ⟨response, cycles', hr, hans, hdel, hfirst⟩)
    · exact .inl ⟨⟨_, e, List.mem_cons_self⟩, e', he'⟩
    · exact .inr ⟨response, cycles', hr, hans, hdel, hfirst⟩

/-! ### The loop -/

theorem u64Add_of_lt {a b : Nat} (h : a + b < u64Bound) : u64Add a b = a + b :=
  Nat.mod_eq_of_lt h

theorem u64Sub_of_le {a b : Nat} (hb : b ≤ a) (ha : a < u64Bound) : u64Sub a b = a - b := by
  unfold u64Sub
  rw [show a + (u64Bound - b) = (a - b) + u64Bound by omega, Nat.add_mod_right,
    Nat.mod_eq_of_lt (by omega)]

/-- Inside a response the next range starts right after the last one. -/
theorem split_eq {e total : Nat} (htotal : total ≤ isizeMax) (he : e < total) :
    split e total maxResponseBytes = (e + 1,
      if total ≤ e + 1 + maxResponseBytes then total - 1 else e + maxResponseBytes) := by
  have hbig : isizeMax + maxResponseBytes < u64Bound := by decide
  have hstart : u64Add e 1 = e + 1 := u64Add_of_lt (by omega)
  have hsum : u64Add (e + 1) maxResponseBytes = e + 1 + maxResponseBytes :=
    u64Add_of_lt (by omega)
  unfold split
  simp only [hstart, hsum]
  rw [u64Sub_of_le (by omega) (by omega), u64Sub_of_le (by omega) (by omega),
    Nat.add_right_comm, Nat.add_sub_cancel]

/-- What the loop does with a response of a compliant server. -/
theorem receive_served (body : Body) (hfits : body.length ≤ isizeMax) {range : Nat × Nat}
    {served : HttpResponse} (h : Served body range served) (hstart : range.1 < body.length)
    (hle : range.1 ≤ range.2) :
    (range.1 = 0 ∧ served.status = 200 ∧
      receive (body.bytes.take range.1) (rpcTransform served) = .ok (.done body.bytes)) ∨
    (served.status ≠ 200 ∧
      receive (body.bytes.take range.1) (rpcTransform served) = .ok
        (if body.length ≤ body.clip range.2 + 2 then
          .done (body.bytes.take (body.clip range.2 + 1))
        else
          .again (split (body.clip range.2) body.length maxResponseBytes)
            (body.bytes.take (body.clip range.2 + 1)))) := by
  cases h with
  | whole hzero hstatus hbody =>
    refine .inl ⟨hzero, hstatus, ?_⟩
    unfold receive
    rw [if_pos (show (rpcTransform served).status = 200 from hstatus), hzero, List.take_zero,
      List.nil_append]
    exact congrArg (fun b => Except.ok (Progress.done b)) hbody
  | ranged hstatus hbody hheader =>
    refine .inr ⟨hstatus, ?_⟩
    obtain ⟨header, hfind, hvalue⟩ := hheader
    have hbound : isizeMax < u64Bound := by decide
    have hclip : body.clip range.2 < body.length := by
      unfold Body.clip
      omega
    have hsplit := split_eq hfits hclip
    -- what has been received is a prefix of the body again
    have hjoin : body.bytes.take range.1 ++ (rpcTransform served).body =
        body.bytes.take (body.clip range.2 + 1) := by
      rw [show (rpcTransform served).body = served.body from rfl, hbody]
      refine body.take_append_slice ?_
      unfold Body.clip
      omega
    have hnext : nextRange header.value =
        .ok (some (split (body.clip range.2) body.length maxResponseBytes)) := by
      rw [hvalue]
      exact nextRange_contentRangeText (by omega) (by omega)
    unfold receive
    rw [if_neg (show ¬ (rpcTransform served).status = 200 from hstatus), find?_rpcTransform, hfind]
    simp only [hnext, hjoin, bind, Except.bind, pure, Except.pure]
    have hM : (1 : Nat) < maxResponseBytes := by decide
    -- the exit test compares inclusive ends: a single byte that is left looks like none
    have hiff : (split (body.clip range.2) body.length maxResponseBytes).2 ≤
        (split (body.clip range.2) body.length maxResponseBytes).1 ↔
        body.length ≤ body.clip range.2 + 2 := by
      rw [hsplit]
      dsimp only
      split <;> omega
    by_cases hend : body.length ≤ body.clip range.2 + 2
    · rw [if_pos (hiff.mpr hend), if_pos hend]
    · rw [if_neg (fun hno => hend (hiff.mp hno)), if_neg hend]

/-- After the range up to `e` and full ranges a single byte is left. -/
def Body.LeavesOne (body : Body) (e : Nat) : Prop :=
  ∃ j, body.length = e + 1 + j * maxResponseBytes + 1

/-- With one more full range the same is left. -/
theorem Body.leavesOne_add (body : Body) {e : Nat} (h : e + 2 < body.length) :
    body.LeavesOne e ↔ body.LeavesOne (e + maxResponseBytes) := by
  constructor
  · rintro ⟨j, hj⟩
    cases j with
    | zero => omega
    | succ j => exact ⟨j, by rw [hj, Nat.succ_mul]; omega⟩
  · rintro ⟨j, hj⟩
    exact ⟨j + 1, by rw [hj, Nat.succ_mul]; omega⟩

theorem Body.not_leavesOne (body : Body) {e : Nat} (h : e + 2 < body.length)
    (hlast : body.length ≤ e + 1 + maxResponseBytes) : ¬ body.LeavesOne e := by
  rintro ⟨j, hj⟩
  cases j with
  | zero => omega
  | succ j =>
    rw [Nat.succ_mul] at hj
    omega

/-- The next range leaves what this one does. -/
theorem Body.leavesOne_split (body : Body) (hfits : body.length ≤ isizeMax) {e : Nat}
    (h : e + 2 < body.length) :
    body.LeavesOne e ↔
      body.LeavesOne (body.clip (split e body.length maxResponseBytes).2) := by
  have hM : (1 : Nat) < maxResponseBytes := by decide
  rw [split_eq hfits (show e < body.length by omega)]
  dsimp only
  split
  · next hcover =>
    refine iff_of_false (body.not_leavesOne h hcover) ?_
    rintro ⟨j, hj⟩
    unfold Body.clip at hj
    omega
  · next hmore =>
    rw [show body.clip (e + maxResponseBytes) = e + maxResponseBytes from
      Nat.min_eq_left (by omega)]
    exact body.leavesOne_add h

/-! ### The capacity of the buffer -/

theorem length_le_grown (capacity length : Nat) : length ≤ grown capacity length := by
  unfold grown
  split <;> omega

theorem le_grown (capacity length : Nat) : capacity ≤ grown capacity length := by
  unfold grown
  split <;> omega

theorem grown_grown (capacity length : Nat) :
    grown (grown capacity length) length = grown capacity length :=
  if_pos (length_le_grown capacity length)

/-- The capacity of the buffer after the first `n + 1` responses, of which the first ends right
    before byte `stop` and the others have the full size. -/
def Body.capacityAfter (body : Body) : Nat → Nat → Nat → Nat
  | capacity, stop, 0 => grown capacity (min stop body.length)
  | capacity, stop, n + 1 =>
    body.capacityAfter (grown capacity (min stop body.length)) (stop + maxResponseBytes) n

/-- All responses fit in the buffer. -/
def Body.Fits (body : Body) (capacity stop : Nat) : Prop :=
  ∀ n, body.capacityAfter capacity stop n ≤ isizeMax

theorem Body.fits_iff (body : Body) {capacity stop : Nat} :
    body.Fits capacity stop ↔ grown capacity (min stop body.length) ≤ isizeMax ∧
      body.Fits (grown capacity (min stop body.length)) (stop + maxResponseBytes) := by
  constructor
  · exact fun h => ⟨h 0, fun n => h (n + 1)⟩
  · rintro ⟨hfirst, hrest⟩ n
    cases n with
    | zero => exact hfirst
    | succ n => exact hrest n

/-- With the end of the response the buffer has its last capacity. -/
theorem Body.capacityAfter_of_le (body : Body) {capacity stop : Nat} (h : body.length ≤ stop)
    (n : Nat) : body.capacityAfter capacity stop n = grown capacity body.length := by
  induction n generalizing capacity stop with
  | zero =>
    rw [capacityAfter, Nat.min_eq_right h]
  | succ n ih =>
    rw [capacityAfter, Nat.min_eq_right h, ih (h.trans (Nat.le_add_right _ _)), grown_grown]

theorem Body.fits_of_le (body : Body) {capacity stop : Nat} (h : body.length ≤ stop) :
    body.Fits capacity stop ↔ grown capacity body.length ≤ isizeMax := by
  unfold Fits
  simp only [body.capacityAfter_of_le h]
  exact forall_const Nat

/-- The capacity needed for the response is never below the one of its first part. -/
theorem Body.le_capacityAfter (body : Body) (capacity stop n : Nat) :
    min (stop + n * maxResponseBytes) body.length ≤ body.capacityAfter capacity stop n := by
  induction n generalizing capacity stop with
  | zero =>
    rw [Nat.zero_mul, Nat.add_zero]
    exact length_le_grown _ _
  | succ n ih =>
    rw [capacityAfter, Nat.succ_mul, Nat.add_comm (n * _), ← Nat.add_assoc]
    exact ih _ _

/-- What fits is not longer than a `Vec` can be. -/
theorem Body.Fits.length_le {body : Body} {capacity stop : Nat} (h : body.Fits capacity stop) :
    body.length ≤ isizeMax := by
  have hM : 1 ≤ maxResponseBytes := by decide
  have hle := (body.le_capacityAfter capacity stop body.length).trans (h body.length)
  have hmul := Nat.le_mul_of_pos_right body.length hM
  omega

theorem Body.Fits.capacity_le {body : Body} {capacity stop : Nat} (h : body.Fits capacity stop) :
    capacity ≤ isizeMax :=
  (le_grown _ _).trans (h 0)

/-- The next range is as good as a full one. -/
theorem Body.fits_split (body : Body) (hfits : body.length ≤ isizeMax) {capacity e : Nat}
    (h : e + 2 < body.length) :
    body.Fits capacity ((split e body.length maxResponseBytes).2 + 1) ↔
      body.Fits capacity (e + 1 + maxResponseBytes) := by
  rw [split_eq hfits (show e < body.length by omega)]
  dsimp only
  split
  · next hcover => rw [body.fits_of_le hcover, body.fits_of_le (by omega)]
  · rw [Nat.add_right_comm]

/-- Adding the bytes is all that `collect` does more than `receive`. -/
theorem collect_of_receive {buf : List UInt8} {capacity : Nat} {response : HttpResponse}
    {progress : Progress} (h : receive buf response = .ok progress) :
    collect buf capacity response =
      if grown capacity progress.buf.length ≤ isizeMax then
        .ok (progress, grown capacity progress.buf.length)
      else .error .capacityOverflow := by
  unfold collect allocate
  rw [h]
  by_cases hcap : grown capacity progress.buf.length ≤ isizeMax
  · simp only [bind, Except.bind, if_pos hcap]
    rfl
  · simp only [bind, Except.bind, if_neg hcap]

theorem collect_eq_ok {buf : List UInt8} {capacity capacity' : Nat} {response : HttpResponse}
    {progress : Progress} (h : collect buf capacity response = .ok (progress, capacity')) :
    receive buf response = .ok progress ∧ progress.buf.length ≤ capacity' ∧
      capacity' ≤ isizeMax := by
  cases hrec : receive buf response with
  | error t =>
    unfold collect at h
    rw [hrec] at h
    cases h
  | ok received =>
    rw [collect_of_receive hrec] at h
    split at h
    · next hle =>
      cases h
      exact ⟨rfl, length_le_grown _ _, hle⟩
    · cases h

/-! ### Parts of a transcript -/

theorem Rejected.append_right {l₂ : Transcript} (h : Rejected l₂) (l₁ : Transcript) :
    Rejected (l₁ ++ l₂) := by
  obtain ⟨q, e, hmem⟩ := h
  exact ⟨q, e, List.mem_append_right _ hmem⟩

theorem firstResponse_append {l₁ : Transcript} {response : HttpResponse}
    (h : firstResponse l₁ = some response) (l₂ : Transcript) :
    firstResponse (l₁ ++ l₂) = some response := by
  unfold firstResponse at h ⊢
  rw [List.findSome?_append, h, Option.some_or]

theorem delivered_append (l₁ l₂ : Transcript) :
    delivered (l₁ ++ l₂) = delivered l₁ ++ delivered l₂ := List.filterMap_append

section

variable {J R : Type} (codec : Codec J R) (url : String) (payload : List UInt8) (subnetNodes : Nat)

/-- One response of the loop. -/
theorem makeRpcLoop_run (fuel : Nat) (range : Nat × Nat) (buf : List UInt8) (capacity : Nat)
    (s : Store) :
    (makeRpcLoop codec url payload subnetNodes (fuel + 1) range buf capacity).run s =
      ((makeSingleRequest (partialRequest codec.uniq url payload range subnetNodes).1
        (partialRequest codec.uniq url payload range subnetNodes).2).run s).bind
        fun response s' => match collect buf capacity response with
          | .error p => .trap p
          | .ok (.done buf, _) => .ok s' (some buf)
          | .ok (.again range buf, capacity) =>
            (makeRpcLoop codec url payload subnetNodes fuel range buf capacity).run s' := by
  rw [makeRpcLoop]
  show Proc.bind _ _ = _
  congr 1
  funext response s'
  dsimp only
  cases collect buf capacity response with
  | error p => rfl
  | ok x =>
    obtain ⟨progress, capacity'⟩ := x
    cases progress <;> rfl

/-- The code starts with a buffer for the first range. -/
theorem makeRpcBuffer_run (fuel : Nat) (endpoint : String) (params : J) (m : Nat) (s : Store) :
    (makeRpcBuffer codec fuel url endpoint params m subnetNodes).run s =
      if m % usizeBound ≤ isizeMax then
        (makeRpcLoop codec url (codec.toVec endpoint params) subnetNodes fuel (0, u64Sub m 1) []
          (m % usizeBound)).run s
      else .trap .capacityOverflow := by
  unfold makeRpcBuffer allocate
  split <;> rfl

/-- A range is rejected, everything comes at once, or the loop ends with the range or goes on
    behind it; the buffer may be too large. -/
theorem makeRpcLoop_step {body : Body} (hfits : body.length ≤ isizeMax) {fuel : Nat}
    {range : Nat × Nat} {capacity : Nat} {s : Store} {l : Transcript}
    {r : Result RpcError Panic Store (Option (List UInt8))}
    (hstart : range.1 < body.length) (hle : range.1 ≤ range.2) (hend : range.2 < u64Bound)
    (h : Proc.RunsVia (Compliant body) ((makeRpcLoop codec url payload subnetNodes (fuel + 1) range
      (body.bytes.take range.1) capacity).run s) l r) :
    (Rejected l ∧ ∃ e, r = .err s (.retryLimit e)) ∨
    (range.1 = 0 ∧ SentWhole l ∧ r = if grown capacity body.length ≤ isizeMax then
      .ok s (some body.bytes) else .trap .capacityOverflow) ∨
    (¬ SentWhole l ∧ isizeMax < grown capacity (body.clip range.2 + 1) ∧
      r = .trap .capacityOverflow) ∨
    (¬ SentWhole l ∧ grown capacity (body.clip range.2 + 1) ≤ isizeMax ∧
      ∃ l₁ l₂, l = l₁ ++ l₂ ∧ delivered l₁ = [range] ∧
      if body.length ≤ body.clip range.2 + 2 then
        l₂ = [] ∧ r = .ok s (some (body.bytes.take (body.clip range.2 + 1)))
      else Proc.RunsVia (Compliant body) ((makeRpcLoop codec url payload subnetNodes fuel
        (split (body.clip range.2) body.length maxResponseBytes)
        (body.bytes.take (body.clip range.2 + 1))
        (grown capacity (body.clip range.2 + 1))).run s) l₂ r) := by
  rw [makeRpcLoop_run] at h
  rcases h.of_bind with ⟨l₁, l₂, s₁, response, rfl, h₁, h₂⟩ | ⟨s₁, e, rfl, h₁⟩ | ⟨t, rfl, h₁⟩
  · rcases retryRequest_via h₁ with ⟨-, e, he⟩ | ⟨response', cycles, hr, hans, hdel, hfirst⟩
    · cases he
    cases hr
    have hbound : isizeMax < u64Bound := by decide
    have hasked := askedRange_partialRequest codec.uniq url payload
      (show range.1 < u64Bound by omega) hend subnetNodes
    rw [hasked] at hdel
    -- what the canister gets has passed `rpc_transform`
    obtain ⟨served, hserved, rfl⟩ := hans response rfl range hasked
    have hfirst' := firstResponse_append hfirst l₂
    rcases receive_served body hfits hserved hstart hle with
      ⟨hzero, hstatus, hrec⟩ | ⟨hstatus, hrec⟩
    · refine .inr (.inl ⟨hzero, ⟨_, hfirst', hstatus⟩, ?_⟩)
      have hcollect := @collect_of_receive _ capacity _ _ hrec
      rw [show (Progress.done body.bytes).buf.length = body.length from rfl] at hcollect
      rw [hcollect] at h₂
      by_cases hcap : grown capacity body.length ≤ isizeMax
      · rw [if_pos hcap] at h₂ ⊢
        exact (Proc.runsVia_ok.mp h₂).2
      · rw [if_neg hcap] at h₂ ⊢
        exact (Proc.runsVia_trap.mp h₂).2
    · have hsent : ¬ SentWhole (l₁ ++ l₂) := by
        intro ⟨response', hresponse, hwhole⟩
        rw [hfirst', Option.some.injEq] at hresponse
        exact hstatus (show (rpcTransform served).status = 200 from hresponse ▸ hwhole)
      have hcollect := @collect_of_receive _ capacity _ _ hrec
      -- either way the buffer holds everything up to the end of the range
      have hbuf : (if body.length ≤ body.clip range.2 + 2 then
            Progress.done (body.bytes.take (body.clip range.2 + 1))
          else .again (split (body.clip range.2) body.length maxResponseBytes)
            (body.bytes.take (body.clip range.2 + 1))).buf.length = body.clip range.2 + 1 := by
        split <;> exact body.length_take_clip range.2
      rw [hbuf] at hcollect
      rw [hcollect] at h₂
      by_cases hcap : grown capacity (body.clip range.2 + 1) ≤ isizeMax
      · rw [if_pos hcap] at h₂
        refine .inr (.inr (.inr ⟨hsent, hcap, l₁, l₂, rfl, hdel, ?_⟩))
        by_cases hlast : body.length ≤ body.clip range.2 + 2
        · rw [if_pos hlast] at h₂ ⊢
          exact Proc.runsVia_ok.mp h₂
        · rw [if_neg hlast] at h₂ ⊢
          exact h₂
      · rw [if_neg hcap] at h₂
        exact .inr (.inr (.inl ⟨hsent, Nat.lt_of_not_le hcap, (Proc.runsVia_trap.mp h₂).2⟩))
  · rcases retryRequest_via h₁ with ⟨hrej, e', he⟩ | ⟨response', cycles, hr, -⟩
    · cases he
      exact .inl ⟨hrej, e', rfl⟩
    · cases hr
  · rcases retryRequest_via h₁ with ⟨-, e', he⟩ | ⟨response', cycles, hr, -⟩
    · cases he
    · cases hr

/-- Where the loop ends: at the end of the response, right before its last byte, or where the
    buffer gets too large. -/
theorem makeRpcLoop_via {body : Body} (hfits : body.length ≤ isizeMax) {fuel : Nat}
    {range : Nat × Nat} {capacity : Nat} {s : Store} {l : Transcript}
    {r : Result RpcError Panic Store (Option (List UInt8))}
    (hstart : range.1 < body.length) (hle : range.1 ≤ range.2) (hend : range.2 < u64Bound)
    (hfuel : body.length ≤ range.1 + fuel)
    (h : Proc.RunsVia (Compliant body) ((makeRpcLoop codec url payload subnetNodes fuel range
      (body.bytes.take range.1) capacity).run s) l r) :
    (Rejected l ∧ ∃ e, r = .err s (.retryLimit e)) ∨
    (range.1 = 0 ∧ SentWhole l ∧ r = if grown capacity body.length ≤ isizeMax then
      .ok s (some body.bytes) else .trap .capacityOverflow) ∨
    (¬ SentWhole l ∧ ¬ body.Fits capacity (range.2 + 1) ∧ r = .trap .capacityOverflow) ∨
    (¬ SentWhole l ∧ ∃ stop, r = .ok s (some (body.bytes.take stop)) ∧
      body.Tiles range.1 stop (delivered l) ∧
      (body.LeavesOne (body.clip range.2) → stop = body.length - 1) ∧
      (¬ body.LeavesOne (body.clip range.2) →
        stop = body.length ∧ body.Fits capacity (range.2 + 1))) := by
  -- the start of the range grows with every response that is not the last
  induction fuel generalizing range capacity l with
  | zero => omega
  | succ fuel ih =>
    have hclip : body.clip range.2 < body.length ∧ range.1 ≤ body.clip range.2 := by
      unfold Body.clip
      omega
    have hfit := @Body.fits_iff body capacity (range.2 + 1)
    rw [← body.clip_succ] at hfit
    rcases makeRpcLoop_step codec url payload subnetNodes hfits hstart hle hend h with
      hrej | hwhole | ⟨hsent, hover, rfl⟩ | ⟨hsent, hcap, l₁, l₂, rfl, hdel, hrest⟩
    · exact .inl hrej
    · exact .inr (.inl hwhole)
    · have hno : ¬ body.Fits capacity (range.2 + 1) := fun hfits =>
        absurd (hfit.mp hfits).1 (Nat.not_le.mpr hover)
      exact .inr (.inr (.inl ⟨hsent, hno, rfl⟩))
    by_cases hlast : body.length ≤ body.clip range.2 + 2
    · rw [if_pos hlast] at hrest
      obtain ⟨rfl, rfl⟩ := hrest
      refine .inr (.inr (.inr ⟨hsent, body.clip range.2 + 1, rfl, ?_, ?_, ?_⟩))
      · rw [List.append_nil, hdel]
        exact ⟨rfl, hle, rfl⟩
      · intro ⟨j, hj⟩
        omega
      · intro hno
        have hall : body.clip range.2 + 1 = body.length := by
          by_contra hne
          exact hno ⟨0, by omega⟩
        refine ⟨hall, (body.fits_of_le ?_).mpr (hall ▸ hcap)⟩
        have hsucc := body.clip_succ range.2
        omega
    · rw [if_neg hlast] at hrest
      have hM : (1 : Nat) < maxResponseBytes := by decide
      have hbound : isizeMax + maxResponseBytes < u64Bound := by decide
      have hnext : (split (body.clip range.2) body.length maxResponseBytes).1 =
          body.clip range.2 + 1 := by rw [split_eq hfits hclip.1]
      have hlimits : body.clip range.2 + 1 ≤
            (split (body.clip range.2) body.length maxResponseBytes).2 ∧
          (split (body.clip range.2) body.length maxResponseBytes).2 < u64Bound := by
        rw [split_eq hfits hclip.1]
        dsimp only
        split <;> omega
      have hinside : body.clip range.2 = range.2 := by
        have hsucc := body.clip_succ range.2
        omega
      have hfitSplit : body.Fits capacity (range.2 + 1) ↔
          grown capacity (body.clip range.2 + 1) ≤ isizeMax ∧
            body.Fits (grown capacity (body.clip range.2 + 1))
              ((split (body.clip range.2) body.length maxResponseBytes).2 + 1) := by
        rw [hfit, body.fits_split hfits (by omega), hinside]
      rw [← hnext] at hrest hlimits hcap hfitSplit
      rcases ih (by omega) hlimits.1 hlimits.2 (by omega) hrest with
        ⟨hrej, hr⟩ | ⟨hzero, -⟩ | ⟨-, hover, rfl⟩ | ⟨-, stop, hr, htiles, hone, hall⟩
      · exact .inl ⟨hrej.append_right l₁, hr⟩
      · omega
      · exact .inr (.inr (.inl ⟨hsent, fun hno => hover (hfitSplit.mp hno).2, rfl⟩))
      · have hleaves := @Body.leavesOne_split body hfits (body.clip range.2) (by omega)
        refine .inr (.inr (.inr ⟨hsent, stop, hr, ?_, ?_, ?_⟩))
        · rw [delivered_append, hdel]
          rw [hnext] at htiles
          exact ⟨rfl, hle, htiles⟩
        · exact fun h => hone (hleaves.mp h)
        · intro h
          obtain ⟨hstop, hrestFit⟩ := hall (fun h' => h (hleaves.mpr h'))
          exact ⟨hstop, hfitSplit.mpr ⟨hcap, hrestFit⟩⟩

/-- What is handed on has fitted in the buffer, whatever was answered. -/
theorem makeRpcLoop_length {ans : (q : HttpCall) → HttpReply q → Prop} {fuel : Nat}
    {range : Nat × Nat} {buf collected : List UInt8} {capacity : Nat} {s s' : Store}
    {l : Transcript}
    (h : Proc.RunsVia ans ((makeRpcLoop codec url payload subnetNodes fuel range buf capacity).run s)
      l (.ok s' (some collected))) :
    collected.length ≤ isizeMax := by
  induction fuel generalizing range buf capacity s l with
  | zero => cases (Proc.runsVia_ok.mp h).2
  | succ fuel ih =>
    rw [makeRpcLoop_run] at h
    rcases h.of_bind with ⟨l₁, l₂, s₁, response, -, -, h₂⟩ | ⟨s₁, e, he, -⟩ | ⟨t, ht, -⟩
    · cases hcollect : collect buf capacity response with
      | error t =>
        rw [hcollect] at h₂
        cases (Proc.runsVia_trap.mp h₂).2
      | ok x =>
        obtain ⟨progress, capacity'⟩ := x
        rw [hcollect] at h₂
        cases progress with
        | done collected' =>
          cases (Proc.runsVia_ok.mp h₂).2
          obtain ⟨-, hlength, hcap⟩ := collect_eq_ok hcollect
          exact hlength.trans hcap
        | again range' buf' => exact ih h₂
    · cases he
    · cases ht

/-- Where `make_rpc` stops reading, for the size `m` of its first range. -/
theorem makeRpcBuffer_via (body : Body) (hfits : body.length ≤ isizeMax) {fuel : Nat}
    {endpoint : String} {params : J} {m : Nat} {s : Store} {l : Transcript}
    {r : Result RpcError Panic Store (Option (List UInt8))}
    (hm : 1 ≤ m) (hbound : m < u64Bound) (hfuel : body.length ≤ fuel)
    (h : Proc.RunsVia (Compliant body)
      ((makeRpcBuffer codec fuel url endpoint params m subnetNodes).run s) l r) :
    (Rejected l ∧ ∃ e, r = .err s (.retryLimit e)) ∨
    (SentWhole l ∧ r = if grown (m % usizeBound) body.length ≤ isizeMax then
      .ok s (some body.bytes) else .trap .capacityOverflow) ∨
    (¬ SentWhole l ∧ ¬ body.Fits (m % usizeBound) m ∧ r = .trap .capacityOverflow) ∨
    (¬ SentWhole l ∧ ∃ stop, r = .ok s (some (body.bytes.take stop)) ∧
      body.Tiles 0 stop (delivered l) ∧
      ((∃ j, body.length = m + j * maxResponseBytes + 1) → stop = body.length - 1) ∧
      ((∀ j, body.length ≠ m + j * maxResponseBytes + 1) →
        stop = body.length ∧ body.Fits (m % usizeBound) m)) := by
  have hpos := body.length_pos
  have hfirst : u64Sub m 1 = m - 1 := u64Sub_of_le hm hbound
  rw [makeRpcBuffer_run, hfirst] at h
  by_cases hcap : m % usizeBound ≤ isizeMax
  · rw [if_pos hcap] at h
    have hloop := @makeRpcLoop_via J R codec url (codec.toVec endpoint params) subnetNodes body
      hfits fuel (0, m - 1) (m % usizeBound) s l r hpos (Nat.zero_le _) (by dsimp only; omega)
      (by omega) h
    dsimp only at hloop
    rw [Nat.sub_add_cancel hm] at hloop
    rcases hloop with hrej | ⟨-, hwhole⟩ | hover | ⟨hsent, stop, rfl, htiles, hone, hall⟩
    · exact .inl hrej
    · exact .inr (.inl hwhole)
    · exact .inr (.inr (.inl hover))
    -- a first range beyond the end leaves nothing
    · have hleaves : body.LeavesOne (body.clip (m - 1)) ↔
          ∃ j, body.length = m + j * maxResponseBytes + 1 := by
        constructor
        · intro ⟨j, hj⟩
          refine ⟨j, ?_⟩
          unfold Body.clip at hj
          omega
        · intro ⟨j, hj⟩
          refine ⟨j, ?_⟩
          unfold Body.clip
          omega
      refine .inr (.inr (.inr
        ⟨hsent, stop, rfl, htiles, fun h => hone (hleaves.mpr h), fun h => ?_⟩))
      apply hall
      intro hleave
      obtain ⟨j, hj⟩ := hleaves.mp hleave
      exact h j hj
  -- not even the empty buffer can be made
  · rw [if_neg hcap] at h
    obtain ⟨rfl, rfl⟩ := Proc.runsVia_trap.mp h
    refine .inr (.inr (.inl ⟨?_, fun hno => hcap hno.capacity_le, rfl⟩))
    rintro ⟨response, hresponse, -⟩
    cases hresponse

theorem makeRpcBuffer_length {ans : (q : HttpCall) → HttpReply q → Prop} {fuel : Nat}
    {endpoint : String} {params : J} {m : Nat} {s s' : Store} {collected : List UInt8}
    {l : Transcript}
    (h : Proc.RunsVia ans ((makeRpcBuffer codec fuel url endpoint params m subnetNodes).run s)
      l (.ok s' (some collected))) :
    collected.length ≤ isizeMax := by
  rw [makeRpcBuffer_run] at h
  split at h
  · exact makeRpcLoop_length codec url _ subnetNodes h
  · cases (Proc.runsVia_trap.mp h).2

/-- Without its last byte it is another response. -/
theorem Body.take_ne (body : Body) : body.bytes.take (body.length - 1) ≠ body.bytes := by
  intro h
  have hpos := body.length_pos
  have hlength := congrArg List.length h
  rw [List.length_take] at hlength
  unfold Body.length at hpos hlength
  omega

/-- What `make_rpc` hands on is the response, read in ranges that follow each other to its last
    byte, exactly if it fits in the buffer and no single byte was left for the last range. -/
theorem makeRpcBuffer_reassembles (body : Body) (fuel : Nat) (endpoint : String) (params : J)
    (m : Nat) (s : Store) (l : Transcript)
    (r : Result RpcError Panic Store (Option (List UInt8)))
    (hm : 1 ≤ m) (hbound : m < u64Bound) (hfuel : body.length ≤ fuel)
    (h : Proc.RunsVia (Compliant body)
      ((makeRpcBuffer codec fuel url endpoint params m subnetNodes).run s) l r) :
    (Rejected l ∧ ∃ e, r = .err s (.retryLimit e)) ∨
    ((∃ buf, r = .ok s (some buf) ∧ body.Reassembled l buf) ↔
      (SentWhole l ∧ grown (m % usizeBound) body.length ≤ isizeMax) ∨
      (¬ SentWhole l ∧ (∀ j, body.length ≠ m + j * maxResponseBytes + 1) ∧
        body.Fits (m % usizeBound) m)) := by
  by_cases hfits : body.length ≤ isizeMax
  · rcases makeRpcBuffer_via codec url subnetNodes body hfits hm hbound hfuel h with
      hrej | ⟨hwhole, rfl⟩ | ⟨hsent, hover, rfl⟩ | ⟨hsent, stop, rfl, htiles, hone, hall⟩
    · exact .inl hrej
    · refine .inr ?_
      by_cases hcap : grown (m % usizeBound) body.length ≤ isizeMax
      · rw [if_pos hcap]
        exact iff_of_true ⟨_, rfl, rfl, .inl hwhole⟩ (.inl ⟨hwhole, hcap⟩)
      · rw [if_neg hcap]
        refine iff_of_false (fun ⟨buf, hr, _⟩ => nomatch hr) ?_
        rintro (⟨-, h⟩ | ⟨h, -⟩)
        · exact hcap h
        · exact h hwhole
    · refine .inr (iff_of_false (fun ⟨buf, hr, _⟩ => nomatch hr) ?_)
      rintro (⟨h, -⟩ | ⟨-, -, h⟩)
      · exact hsent h
      · exact hover h
    refine .inr ?_
    -- the only lengths that the exit test misses
    by_cases hlast : ∃ j, body.length = m + j * maxResponseBytes + 1
    · refine iff_of_false ?_ ?_
      · rintro ⟨buf, hr, hbuf, -⟩
        cases hr
        rw [hone hlast] at hbuf
        exact body.take_ne hbuf
      · obtain ⟨j, hj⟩ := hlast
        rintro (⟨hwhole, -⟩ | ⟨-, hno, -⟩)
        · exact hsent hwhole
        · exact hno j hj
    · have hno : ∀ j, body.length ≠ m + j * maxResponseBytes + 1 := fun j hj => hlast ⟨j, hj⟩
      obtain ⟨rfl, hfit⟩ := hall hno
      exact iff_of_true ⟨_, rfl, List.take_length, .inr htiles⟩ (.inr ⟨hsent, hno, hfit⟩)
  -- a response that no buffer holds
  · refine .inr (iff_of_false ?_ ?_)
    · rintro ⟨buf, rfl, rfl, -⟩
      exact hfits (makeRpcBuffer_length codec url subnetNodes h)
    · rintro (⟨-, hcap⟩ | ⟨-, -, hfit⟩)
      · exact hfits ((length_le_grown _ _).trans hcap)
      · exact hfits hfit.length_le

end

/-! ### A server -/

/-- It sends what is asked for and nothing more. -/
def rangeServer (body : Body) (q : HttpCall) : HttpReply q :=
  match askedRange q.args with
  | some range => .ok (rpcTransform
      { status := 206
        headers := [⟨"Content-Range",
          contentRangeText range.1 (body.clip range.2) body.length⟩]
        body := body.slice range.1 (body.clip range.2) })
  | none => .ok (rpcTransform { status := 206, headers := [], body := body.bytes })

theorem rangeServer_compliant (body : Body) (q : HttpCall) :
    Compliant body q (rangeServer body q) := by
  intro response hresponse range hrange
  unfold rangeServer at hresponse
  rw [hrange] at hresponse
  cases hresponse
  refine ⟨_, .ranged ?_ rfl ⟨⟨"Content-Range",
    contentRangeText range.1 (body.clip range.2) body.length⟩, ?_, rfl⟩, rfl⟩
  · show (206 : Nat) ≠ 200
    decide
  · exact List.find?_cons_of_pos (by simp [isContentRange])

/-- Against it every call is answered, and never with everything. -/
theorem rangeServer_via (body : Body) {α : Type}
    (p : Proc HttpCall HttpReply RpcError Panic Store α) :
    ∃ l r, Proc.RunsVia (Compliant body) p l r ∧ ¬ Rejected l ∧ ¬ SentWhole l := by
  have hrun : Proc.Runs (fun q reply => rangeServer body q = reply) p
      (p.resultWith (rangeServer body)) := Proc.runs_resultWith (fun _ => rfl) p
  obtain ⟨l, hl⟩ := hrun.via
  have hreply : ∀ x ∈ l, ∃ response, x.2 = .ok response ∧ response.status = 206 := by
    intro x hx
    rw [← hl.answered x hx]
    unfold rangeServer
    split
    · exact ⟨_, rfl, rfl⟩
    · exact ⟨_, rfl, rfl⟩
  refine ⟨l, _, hl.mono fun q a ha => ha ▸ rangeServer_compliant body q, ?_, ?_⟩
  · intro ⟨q, e, hmem⟩
    obtain ⟨response, hok, -⟩ := hreply _ hmem
    cases hok
  · intro ⟨response, hfirst, hstatus⟩
    obtain ⟨x, hmem, hx⟩ := List.exists_of_findSome?_eq_some hfirst
    obtain ⟨response', hok, hpart⟩ := hreply x hmem
    rw [hok] at hx
    cases hx
    rw [hpart] at hstatus
    cases hstatus

namespace Sample

/-- The store right after installation. -/
def store : Store := Store.empty Config.default

/-- A codec of requests without parameters. -/
def codec : Codec Unit Unit where
  toVec _ _ := []
  uniq _ _ := ""
  fromSlice _ := some (none, some ())

/-- A response of `n + 1` digits. -/
def body (n : Nat) : Body where
  bytes := List.replicate (n + 1) 48
  nonempty := fun hnil => by
    rw [List.replicate_succ] at hnil
    cases hnil

theorem length_body (n : Nat) : (body n).length = n + 1 := List.length_replicate

end Sample

/-- Three bytes, of which the first range has one. -/
theorem makeRpcBuffer_reassembles_sample :
    ∃ l buf, Proc.RunsVia (Compliant (Sample.body 2))
        ((makeRpcBuffer Sample.codec 3 "" "getblock" () 1 13).run Sample.store) l
        (.ok Sample.store (some buf)) ∧
      (Sample.body 2).Reassembled l buf := by
  obtain ⟨l, r, hrun, hrej, hsent⟩ := rangeServer_via (Sample.body 2)
    ((makeRpcBuffer Sample.codec 3 "" "getblock" () 1 13).run Sample.store)
  have hfits : (Sample.body 2).Fits (1 % usizeBound) 1 :=
    (Body.fits_iff _).mpr ⟨by decide, ((Body.fits_of_le _) (by decide)).mpr (by decide)⟩
  have hmore : ∀ j, (Sample.body 2).length ≠ 1 + j * maxResponseBytes + 1 := by
    intro j
    have hM : 3 < maxResponseBytes := by decide
    rw [Sample.length_body]
    cases j with
    | zero => decide
    | succ j => rw [Nat.succ_mul]; omega
  rcases makeRpcBuffer_reassembles Sample.codec "" 13 (Sample.body 2) 3 "getblock" () 1
    Sample.store l r (by decide) (by decide) (by decide) hrun with ⟨h, -⟩ | hiff
  · exact absurd h hrej
  · obtain ⟨buf, rfl, hbuf⟩ := hiff.mpr (.inr ⟨hsent, hmore, hfits⟩)
    exact ⟨l, buf, hrun, hbuf⟩

/-- A block whose reply has one byte more than the first range loses that byte. -/
theorem makeRpcBuffer_loses_last :
    ∃ body : Body, body.length = 1999001 ∧
      ∃ l buf, Proc.RunsVia (Compliant body)
          ((makeRpcBuffer Sample.codec 1999001 "" "getblock" () maxResponseBytes 13).run Sample.store)
          l (.ok Sample.store (some buf)) ∧
        buf ≠ body.bytes ∧ ¬ body.Reassembled l buf := by
  have hlength := Sample.length_body 1999000
  refine ⟨Sample.body 1999000, hlength, ?_⟩
  generalize Sample.body 1999000 = body at hlength
  obtain ⟨l, r, hrun, hrej, hsent⟩ := rangeServer_via body
    ((makeRpcBuffer Sample.codec 1999001 "" "getblock" () maxResponseBytes 13).run Sample.store)
  have hfits : body.Fits (maxResponseBytes % usizeBound) maxResponseBytes := by
    rw [Body.fits_iff, body.fits_of_le (by rw [hlength]; decide), hlength]
    decide
  rcases makeRpcBuffer_via Sample.codec "" 13 body (by rw [hlength]; decide) (by decide) (by decide)
      (le_of_eq hlength) hrun with
    ⟨h, -⟩ | ⟨h, -⟩ | ⟨-, h, -⟩ | ⟨-, stop, rfl, -, hone, -⟩
  · exact absurd h hrej
  · exact absurd h hsent
  · exact absurd hfits h
  · rw [hone ⟨0, hlength⟩] at hrun
    exact ⟨l, _, hrun, body.take_ne, fun h => body.take_ne h.1⟩

end Rpc

end RunesIndexer

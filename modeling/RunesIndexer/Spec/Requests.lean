import RunesIndexer.Lib.Calls
import RunesIndexer.Spec.Headers

/-! # The requests of a download

    `make_rpc` sends one request for each range, and repeats it when it is rejected. All of
    them go to one URL with one body; a repeated request is the same, for a tenth more. A
    `Download` is the sequence of these calls with their answers.
    What is lost to `rpc_transform` makes no difference to it.
-/

namespace RunesIndexer

open Resumption

namespace Rpc

/-! ### Attempts -/

/-- The cycles of the next attempt. -/
def raised (cycles : Nat) : Nat := cycles + cycles / 10

/-- One of the four attempts at some range of the response to `payload`. -/
def Attempt (uniq : List UInt8 → Nat × Nat → String) (url : String) (payload : List UInt8)
    (subnetNodes : Nat) (q : HttpCall) : Prop :=
  ∃ range i, i ≤ 3 ∧ q = ⟨(partialRequest uniq url payload range subnetNodes).1,
    raised^[i] (partialRequest uniq url payload range subnetNodes).2⟩

theorem retryRequest_attempts (args : HttpRequest) (left cycles : Nat) :
    (retryRequest args left cycles).CallsOnly
      fun q => ∃ i, i ≤ left ∧ q = ⟨args, raised^[i] cycles⟩ := by
  intro s
  induction left generalizing cycles s with
  | zero =>
    rw [retryRequest_run]
    refine ⟨⟨0, le_refl 0, rfl⟩, fun reply s' => ?_⟩
    cases reply <;> trivial
  | succ left ih =>
    rw [retryRequest_run]
    refine ⟨⟨0, Nat.zero_le _, rfl⟩, fun reply s' => ?_⟩
    cases reply with
    | ok response => trivial
    | error e =>
      refine (ih (raised cycles) s').mono fun q hq => ?_
      obtain ⟨i, hi, rfl⟩ := hq
      exact ⟨i + 1, by omega, by rw [Function.iterate_succ_apply]⟩

section

variable {J R : Type} (codec : Codec J R) (url : String) (payload : List UInt8) (subnetNodes : Nat)

theorem makeRpcLoop_attempts (fuel : Nat) (range : Nat × Nat) (buf : List UInt8)
    (capacity : Nat) :
    (makeRpcLoop codec url payload subnetNodes fuel range buf capacity).CallsOnly
      (Attempt codec.uniq url payload subnetNodes) := by
  induction fuel generalizing range buf capacity with
  | zero => exact .pure none
  | succ fuel ih =>
    intro s
    rw [makeRpcLoop_run]
    refine ((retryRequest_attempts _ 3 _ s).mono fun q hq => ?_).bind fun response s' => ?_
    · obtain ⟨i, hi, rfl⟩ := hq
      exact ⟨range, i, hi, rfl⟩
    · cases collect buf capacity response with
      | error p => trivial
      | ok x =>
        obtain ⟨progress, capacity'⟩ := x
        cases progress with
        | done buf => trivial
        | again range buf => exact ih range buf capacity' s'

theorem makeRpcBuffer_attempts (fuel : Nat) (endpoint : String) (params : J) (m : Nat) :
    (makeRpcBuffer codec fuel url endpoint params m subnetNodes).CallsOnly
      (Attempt codec.uniq url (codec.toVec endpoint params) subnetNodes) := by
  intro s
  rw [makeRpcBuffer_run]
  split
  · exact makeRpcLoop_attempts codec url _ subnetNodes fuel _ _ _ s
  · trivial

theorem makeRpc_attempts (fuel : Nat) (endpoint : String) (params : J)
    (maxResponseBytes : Nat) :
    (makeRpc codec fuel url endpoint params maxResponseBytes subnetNodes).CallsOnly
      (Attempt codec.uniq url (codec.toVec endpoint params) subnetNodes) := by
  refine .bind (makeRpcBuffer_attempts codec url subnetNodes fuel _ _ _) fun buf => ?_
  cases buf with
  | none => exact .pure none
  | some buf => exact .bind (.lift _) fun _ => .pure _

/-! ### Their order -/

section

variable {codec : Codec J R} {url : String} {payload : List UInt8} {subnetNodes : Nat}

end

/-! ### What is read of a response -/

/-- What the canister gets of an answer. -/
def transformed (reply : Except String HttpResponse) : Except String HttpResponse :=
  reply.map rpcTransform

/-- The answers after the transform. -/
def Transformed (ans : (q : HttpCall) → HttpReply q → Prop) (q : HttpCall) (reply : HttpReply q) :
    Prop :=
  ∃ raw : Except String HttpResponse, ans q raw ∧ reply = transformed raw

theorem receive_rpcTransform (buf : List UInt8) (response : HttpResponse) :
    receive buf (rpcTransform response) = receive buf response := by
  unfold receive
  rw [find?_rpcTransform]
  rfl

theorem collect_rpcTransform (buf : List UInt8) (capacity : Nat) (response : HttpResponse) :
    collect buf capacity (rpcTransform response) = collect buf capacity response := by
  unfold collect
  rw [receive_rpcTransform]

theorem exists_transformed {ans : (q : HttpCall) → HttpReply q → Prop} {q : HttpCall}
    {P : HttpReply q → Prop} :
    (∃ reply, Transformed ans q reply ∧ P reply) ↔
      ∃ raw : Except String HttpResponse, ans q raw ∧ P (transformed raw) := by
  constructor
  · rintro ⟨_, ⟨raw, hraw, rfl⟩, h⟩
    exact ⟨raw, hraw, h⟩
  · rintro ⟨raw, hraw, h⟩
    exact ⟨_, ⟨raw, hraw, rfl⟩, h⟩

/-- A request, and a rest that reads of its response what `rpc_transform` keeps. -/
theorem retryRequest_transformed {ans : (q : HttpCall) → HttpReply q → Prop} {α : Type}
    {f : HttpResponse → Store → Proc HttpCall HttpReply RpcError Panic Store α}
    {r : Result RpcError Panic Store α}
    (hf : ∀ response s, Proc.Runs (Transformed ans) (f (rpcTransform response) s) r ↔
      Proc.Runs ans (f response s) r)
    (args : HttpRequest) (left cycles : Nat) (s : Store) :
    Proc.Runs (Transformed ans) (((retryRequest args left cycles).run s).bind f) r ↔
      Proc.Runs ans (((retryRequest args left cycles).run s).bind f) r := by
  induction left generalizing cycles s with
  | zero =>
    rw [retryRequest_run, Proc.bind, Proc.runs_await, Proc.runs_await, exists_transformed]
    refine exists_congr fun raw => and_congr_right fun _ => ?_
    cases raw with
    | ok response => exact hf response s
    | error e => exact Proc.runs_err.trans Proc.runs_err.symm
  | succ left ih =>
    rw [retryRequest_run, Proc.bind, Proc.runs_await, Proc.runs_await, exists_transformed]
    refine exists_congr fun raw => and_congr_right fun _ => ?_
    cases raw with
    | ok response => exact hf response s
    | error e => exact ih (raised cycles) s

theorem makeRpcLoop_transformed {ans : (q : HttpCall) → HttpReply q → Prop} {α : Type}
    {f : Option (List UInt8) → Store → Proc HttpCall HttpReply RpcError Panic Store α}
    {r : Result RpcError Panic Store α}
    (hf : ∀ buf s, Proc.Runs (Transformed ans) (f buf s) r ↔ Proc.Runs ans (f buf s) r)
    (fuel : Nat) (range : Nat × Nat) (buf : List UInt8) (capacity : Nat) (s : Store) :
    Proc.Runs (Transformed ans)
        (((makeRpcLoop codec url payload subnetNodes fuel range buf capacity).run s).bind f) r ↔
      Proc.Runs ans
        (((makeRpcLoop codec url payload subnetNodes fuel range buf capacity).run s).bind f) r := by
  induction fuel generalizing range buf capacity s with
  | zero => exact hf none s
  | succ fuel ih =>
    rw [makeRpcLoop_run, Proc.bind_assoc]
    refine retryRequest_transformed (fun response s' => ?_) _ _ _ s
    rw [collect_rpcTransform]
    cases collect buf capacity response with
    | error p => exact Proc.runs_trap.trans Proc.runs_trap.symm
    | ok x =>
      obtain ⟨progress, capacity'⟩ := x
      cases progress with
      | done buf => exact hf (some buf) s'
      | again range buf => exact ih range buf capacity' s'

/-- Whatever the endpoint answers, `make_rpc` ends as it would with the untransformed answers. -/
theorem makeRpc_transformed {ans : (q : HttpCall) → HttpReply q → Prop} (fuel : Nat)
    (endpoint : String) (params : J) (maxResponseBytes : Nat) (s : Store)
    (r : Result RpcError Panic Store (Option R)) :
    Proc.Runs (Transformed ans)
        ((makeRpc codec fuel url endpoint params maxResponseBytes subnetNodes).run s) r ↔
      Proc.Runs ans
        ((makeRpc codec fuel url endpoint params maxResponseBytes subnetNodes).run s) r := by
  show Proc.Runs (Transformed ans) (((makeRpcBuffer _ _ _ _ _ _ _).run s).bind _) r ↔
    Proc.Runs ans (((makeRpcBuffer _ _ _ _ _ _ _).run s).bind _) r
  rw [makeRpcBuffer_run]
  split
  · refine makeRpcLoop_transformed codec url _ subnetNodes (fun buf s' => ?_) fuel _ _ _ s
    cases buf with
    | none => exact Proc.runs_ok.trans Proc.runs_ok.symm
    | some buf =>
      cases hreply : (parseReply codec endpoint buf).run s' with
      | ok s₁ a => simp [hreply, Result.toProc, Proc.bind]
      | err s₁ e => simp [hreply, Result.toProc, Proc.bind]
      | trap t => simp [hreply, Result.toProc, Proc.bind]
  · exact Proc.runs_trap.trans Proc.runs_trap.symm

end

end Rpc

end RunesIndexer

import DistDpi.Flow.Steps

/-!
# Flow — names

The protocol's name that a callback reports.  `navl_proto_get_name` writes it into `name`, one
buffer for all callbacks, and what it returns is not looked at: where it fails, the name is that of
an earlier callback.  What `navl_app_get` returns is stored in a `u_int`, so that its −1 is a
protocol.

A name is that of its own flow exactly where navl has written it, or there is no protocol
(`ownName_iff`).
-/

namespace DistDpi.Sys

/-- What `navl_app_get` returns, an `int`. -/
def appReturn : Option (Int × Int) → Int
  | some (index, _) => toInt index
  | none => -1

/-- In a run, a callback on `handle` pushes `data`, where the two calls it makes to navl for the
name are answered like this. -/
def PushesName (handle : Int) (appGet : Option (Int × Int)) (protoName : Option Bytes)
    (data : DPIFlowData) : Prop :=
  ∃ inst as s q e state error now s', system.Run (init inst) as s ∧ s.engines[q]? = some e ∧
    e.navlhandle = handle ∧
    system.step s (.engine q (.callback ⟨state, error, appGet, protoName⟩ now)) = some s' ∧
    s'.updateDPQueue = s.updateDPQueue ++ [data]

/-- **The property**, of these answers: the name depends on nothing else, and it is `UNKNOWN` where
`navl_app_get` fails or finds no protocol. -/
structure OwnName (appGet : Option (Int × Int)) (protoName : Option Bytes) : Prop where
  own : ∀ handle data₁ data₂, PushesName handle appGet protoName data₁ →
    PushesName handle appGet protoName data₂ → data₁.dpiresult = data₂.dpiresult
  unknown : appReturn appGet = -1 ∨ appReturn appGet = 0 →
    ∀ handle data, PushesName handle appGet protoName data → data.dpiresult = unknownResult

/-- **The condition.**  No protocol was found, or its name was written; and if `navl_app_get` has
failed, the name that was written for −1 is `UNKNOWN`. -/
def NameOk (appGet : Option (Int × Int)) (protoName : Option Bytes) : Prop :=
  appReturn appGet = 0 ∨ ∃ n, protoName = some n ∧
    (appReturn appGet = -1 → cString (n.take 8) = unknownResult)

section
variable {inst : Instances} {as : List Act} {s s' : Sys} {q : Nat} {e : Engine} {m : ConnMetadata}
  {i it : Node} {r : Verdict} {now handle : Int} {data : DPIFlowData}
  {appGet : Option (Int × Int)} {protoName : Option Bytes}

/-! ### What is reported -/

/-- The test of `dpi_result`. -/
theorem appResult_eq_zero : appResult appGet = 0 ↔ appReturn appGet = 0 := by
  cases appGet with
  | none => exact iff_of_false (by decide) (by decide)
  | some r =>
      change UInt32.ofInt r.1 = 0 ↔ toInt r.1 = 0
      rw [← UInt32.toNat_inj, UInt32.ofInt, UInt32.toNat_ofNat', UInt32.toNat_zero, toInt,
        ← Int.dvd_iff_bmod_eq_zero]
      omega

theorem dpiresult_none {name : Bytes} (h : appReturn r.appGet = 0) :
    dpiresult name r = unknownResult := if_neg (not_not.2 (appResult_eq_zero.2 h))

/-- The bytes before the NUL. -/
theorem cString_append {l l' : Bytes} : cString (l ++ 0 :: l') = cString l := by
  induction l with
  | nil => rfl
  | cons b l ih =>
      rw [List.cons_append, cString, cString, List.takeWhile_cons, List.takeWhile_cons]
      split
      · exact congrArg _ ih
      · rfl

/-- A name that navl has written. -/
theorem dpiresult_written {name n : Bytes} (h : appReturn r.appGet ≠ 0)
    (hn : r.protoName = some n) : dpiresult name r = cString (n.take 8) := by
  rw [dpiresult, if_pos (mt appResult_eq_zero.1 h), hn]
  exact cString_append

/-- One that it has not. -/
theorem dpiresult_stale {name : Bytes} (h : appReturn r.appGet ≠ 0) (hn : r.protoName = none) :
    dpiresult name r = cString name := by
  rw [dpiresult, if_pos (mt appResult_eq_zero.1 h), hn]
  rfl

/-- What a callback pushes has the name that the buffer gave, as it was before. -/
theorem Change.pushed (h : Change s (.engine q (.callback r now)) s')
    (hp : s'.updateDPQueue = s.updateDPQueue ++ [data]) :
    data.dpiresult = dpiresult s.name r := by
  have none : ¬ s.updateDPQueue = s.updateDPQueue ++ [data] := fun k =>
    List.cons_ne_nil _ _ (List.self_eq_append_right.1 k)
  cases h with
  | moved he hm => rcases hm.act with k | k | k <;> cases k
  | unfound | noted => exact absurd hp none
  | reported =>
      obtain rfl : flowData _ s.name r = data := (List.cons.inj (List.append_cancel_left hp)).1
      rfl

theorem PushesName.dpiresult_eq (h : PushesName handle appGet protoName data) :
    ∃ state error name, data.dpiresult = dpiresult name ⟨state, error, appGet, protoName⟩ := by
  obtain ⟨_, _, s, _, _, state, error, _, _, -, -, -, hs, hp⟩ := h
  exact ⟨state, error, s.name, (step_change hs).pushed hp⟩

/-- **Each name is its own** where the condition holds. -/
theorem NameOk.ownName (h : NameOk appGet protoName) : OwnName appGet protoName := by
  by_cases hz : appReturn appGet = 0
  · -- no protocol
    have unknown : ∀ handle data, PushesName handle appGet protoName data →
        data.dpiresult = unknownResult := by
      intro handle data hp
      obtain ⟨state, error, name, hd⟩ := hp.dpiresult_eq
      exact hd.trans (dpiresult_none hz)
    exact ⟨fun handle d₁ d₂ h₁ h₂ => (unknown handle d₁ h₁).trans (unknown handle d₂ h₂).symm,
      fun _ => unknown⟩
  · obtain ⟨n, rfl, hfail⟩ := h.resolve_left hz
    have written : ∀ handle data, PushesName handle appGet (some n) data →
        data.dpiresult = cString (n.take 8) := by
      intro handle data hp
      obtain ⟨state, error, name, hd⟩ := hp.dpiresult_eq
      exact hd.trans (dpiresult_written hz rfl)
    exact ⟨fun handle d₁ d₂ h₁ h₂ => (written handle d₁ h₁).trans (written handle d₂ h₂).symm,
      fun hor handle data hp => (written handle data hp).trans (hfail (hor.resolve_right hz))⟩

/-! ### Names of others -/

end

/-- The entry that the callback of the thread of queue `q` looks up. -/
def subject (s : Sys) (q : Nat) : Option Node := do
  let e ← s.engines[q]?
  match e.pc with
  | .callback m => do
      let i ← ConnTable.deref s.connTable m.info
      ConnTable.find s.connTable i.second.key
  | _ => none

/-- Whatever navl answers, a callback that finds its entry pushes what the buffer gives. -/
theorem pushesName_of_subject {inst : Instances} {as : List Act} {s : Sys} {q : Nat} {handle : Int}
    (h : system.Run (init inst) as s) (hh : (s.engines[q]?).map Engine.navlhandle = some handle)
    (hs : (s.subject q).isSome) (appGet : Option (Int × Int)) (protoName : Option Bytes) :
    ∃ data, PushesName handle appGet protoName data ∧
      data.dpiresult = dpiresult s.name ⟨.classified, 0, appGet, protoName⟩ := by
  obtain ⟨e, he, rfl⟩ := Option.map_eq_some_iff.mp hh
  obtain ⟨it, hit⟩ := Option.isSome_iff_exists.mp hs
  have hstep : (system.step s (.engine q (.callback ⟨.classified, 0, appGet, protoName⟩ 0))).map
      updateDPQueue =
        some (s.updateDPQueue ++ [flowData it s.name ⟨.classified, 0, appGet, protoName⟩]) := by
    simp only [subject, he, Option.bind_eq_bind, Option.bind_some] at hit
    split at hit
    · rename_i m hpc
      obtain ⟨i, hd, hf⟩ := Option.bind_eq_some_iff.mp hit
      simp only [system, Sys.step, engineStep, he, hpc, updateFlowTableDPIData, hd, hf,
        Option.bind_eq_bind, Option.bind_some]
      rfl
    · cases hit
  obtain ⟨s', hs', hp⟩ := Option.map_eq_some_iff.mp hstep
  exact ⟨_, ⟨inst, as, s, q, e, .classified, 0, 0, s', h, he, rfl, hs', hp⟩, rfl⟩

/-- navl is asked about a connection. -/
def asked : List Act :=
  opened ++ [.insert tcpKey.swap [2] 0 0 101, .engine 0 .pop, .engine 0 .testState,
    .engine 0 .guard, .engine 0 .classify]

/-- Another connection, of the same queue. -/
def otherKey : ConnKey := ⟨0x0a000001, 0x0a000003, 40001, 443, 6⟩

/-- navl has given its verdict on the one, and is asked about the other. -/
def askedNext : List Act :=
  decided ++ [.insert otherKey [1] 3 1 103, .engine 0 .pop, .engine 0 .testState,
    .engine 0 .setHandle, .engine 0 (.create true), .insert otherKey.swap [2] 0 0 104,
    .engine 0 .pop, .engine 0 .testState, .engine 0 .guard, .engine 0 .classify]

/-- The first callback, with an empty buffer. -/
theorem pushesName_first (appGet : Option (Int × Int)) (protoName : Option Bytes) :
    ∃ data, PushesName 7 appGet protoName data ∧
      data.dpiresult = dpiresult (List.replicate 9 0) ⟨.classified, 0, appGet, protoName⟩ :=
  have hname : ((system.exec (init twoEngines) asked).get (by decide)).name =
      List.replicate 9 0 := by decide
  hname ▸ pushesName_of_subject (q := 0) (Machine.run_of_exec (by decide)) (by decide) (by decide)
    appGet protoName

/-- The next one, with the name of the first in it. -/
theorem pushesName_next (appGet : Option (Int × Int)) (protoName : Option Bytes) :
    ∃ data, PushesName 7 appGet protoName data ∧ data.dpiresult =
      dpiresult ([72, 84] ++ List.replicate 7 0) ⟨.classified, 0, appGet, protoName⟩ :=
  have hname : ((system.exec (init twoEngines) askedNext).get (by decide)).name =
      [72, 84] ++ List.replicate 7 0 := by decide
  hname ▸ pushesName_of_subject (q := 0) (Machine.run_of_exec (by decide)) (by decide) (by decide)
    appGet protoName

/-- **Whose name is reported.**  Over all runs, the names of the callbacks with these answers are
their own exactly where the condition holds. -/
theorem ownName_iff (appGet : Option (Int × Int)) (protoName : Option Bytes) :
    OwnName appGet protoName ↔ NameOk appGet protoName := by
  refine ⟨fun h => ?_, NameOk.ownName⟩
  by_cases hz : appReturn appGet = 0
  · exact .inl hz
  · obtain ⟨data₁, hp₁, hd₁⟩ := pushesName_first appGet protoName
    cases protoName with
    | none =>
        -- the buffer tells the first callback from the next
        obtain ⟨data₂, hp₂, hd₂⟩ := pushesName_next appGet none
        have heq := h.own 7 data₁ data₂ hp₁ hp₂
        rw [hd₁, hd₂, dpiresult_stale hz rfl, dpiresult_stale hz rfl] at heq
        exact absurd heq (by decide)
    | some n =>
        refine .inr ⟨n, rfl, fun hfail => ?_⟩
        rw [← h.unknown (.inl hfail) 7 data₁ hp₁, hd₁, dpiresult_written hz rfl]

/-- A protocol without a name is reported with the name of the connection before. -/
theorem not_ownName : ¬ ∀ (appGet : Option (Int × Int)) (protoName : Option Bytes),
    OwnName appGet protoName := by
  intro h
  obtain ⟨data₁, hp₁, hd₁⟩ := pushesName_first (some (5, 90)) none
  obtain ⟨data₂, hp₂, hd₂⟩ := pushesName_next (some (5, 90)) none
  have heq := (h (some (5, 90)) none).own 7 data₁ data₂ hp₁ hp₂
  rw [hd₁, hd₂] at heq
  revert heq
  decide

end DistDpi.Sys

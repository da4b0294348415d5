import DistDpi.Netx.Cli

/-!
# Netx — framing

The messages of a connection to the CLI channel.  `CliChannelEvent` receives at `msgLength`, for
`sizeof(msg)` bytes each time, and reads a command whatever has arrived.  The first call of a
connection is the only one that can be right (`cli_framing`).
-/

namespace DistDpi.SelectLoop

variable {s s' : SelectLoop} {t : Turn} {n : Nat} {msg : List UInt8}

/-- Bytes are received inside of `msg` only; a command is executed when a whole message has arrived
for it; and the `k`th command is the `k`th message. -/
structure Framed (s : SelectLoop) : Prop where
  inside : s.outside = false
  whole : ∀ (k : Nat) (e : Execution), s.client.executed[k]? = some e → (k + 1) * sizeofNetxCtlMsg ≤ e.arrived
  order : ∀ (k : Nat) (e : Execution), s.client.executed[k]? = some e →
    ∃ m, s.client.sent[k]? = some m ∧ e.msg = m.bytes

/-- The turn receives at the start of `msg`, either a whole message, or bytes that name no filter. -/
def Turn.Aligned (s : SelectLoop) (t : Turn) : Prop :=
  ∀ n, t.recv s = some (.data n) → s.cliChannel.msgLength = 0 ∧
    (n = sizeofNetxCtlMsg ∨ ∀ registry msg,
      Registry.machine.exec s.registry t.callbacks = some registry →
        s.received n = some msg → ¬ Names registry msg)

/-- What holds of the channel before a turn. -/
structure Sound (s : SelectLoop) : Prop where
  size : s.cliChannel.msg.length = sizeofNetxCtlMsg
  arrived : s.cliChannel.cliChannelFd ≠ invalidFd → s.client.arrived = s.cliChannel.msgLength
  fresh : s.cliChannel.cliChannelFd ≠ invalidFd → s.cliChannel.msgLength = 0 →
    s.client.executed = []
  begun : s.cliChannel.cliChannelFd ≠ invalidFd → 0 < s.cliChannel.msgLength →
    ∃ e, s.client.executed[0]? = some e ∧ e.arrived ≤ s.client.arrived

/-! ### The buffer -/

theorem Recv.length_take (h : Recv.possible s (.data n)) : (s.client.wire.take n).length = n :=
  (List.length_take ..).trans (Nat.min_eq_left h.2.2)

/-- What is received stays inside where there is room behind what is there. -/
theorem received_eq (hs : s.Sound) (h : Recv.possible s (.data n)) :
    s.received n =
      if s.cliChannel.msgLength + n ≤ sizeofNetxCtlMsg then
        some (s.cliChannel.msg.take s.cliChannel.msgLength ++ s.client.wire.take n ++
          s.cliChannel.msg.drop (s.cliChannel.msgLength + n))
      else none := by
  rw [received, copyBytes, Recv.length_take h, hs.size]

theorem received_none (hs : s.Sound) (h : Recv.possible s (.data n)) (hrec : s.received n = none) :
    sizeofNetxCtlMsg < s.cliChannel.msgLength + n := by
  rw [received_eq hs h] at hrec
  split at hrec
  · cases hrec
  · omega

theorem received_length (hs : s.Sound) (h : Recv.possible s (.data n))
    (hrec : s.received n = some msg) :
    msg.length = sizeofNetxCtlMsg ∧ s.cliChannel.msgLength + n ≤ sizeofNetxCtlMsg := by
  rw [received_eq hs h] at hrec
  obtain ⟨hle, hmsg⟩ := Option.ite_none_right_eq_some.mp hrec
  refine ⟨?_, hle⟩
  rw [← Option.some.inj hmsg, List.length_append, List.length_append, Recv.length_take h,
    List.length_take, List.length_drop, hs.size]
  omega

/-- The first message, received in one call. -/
theorem received_first (hs : s.Sound) (hl : s.cliChannel.msgLength = 0)
    (ha : s.client.arrived = 0) (h : Recv.possible s (.data sizeofNetxCtlMsg))
    (hrec : s.received sizeofNetxCtlMsg = some msg) :
    ∃ m, s.client.sent[0]? = some m ∧ msg = m.bytes := by
  rw [received_eq hs h, hl, Nat.zero_add, if_pos (Nat.le_refl _), List.take_zero, List.nil_append,
    ← hs.size, List.drop_length, List.append_nil, hs.size] at hrec
  have hwire := h.2.2
  rw [Client.wire, ha, List.drop_zero] at hwire hrec
  cases hsent : s.client.sent with
  | nil =>
      rw [hsent] at hwire
      exact absurd hwire (by decide)
  | cons m rest =>
      refine ⟨m, rfl, ?_⟩
      rw [hsent, List.flatMap_cons, List.take_left' m.size] at hrec
      exact (Option.some.inj hrec).symm

/-! ### The turns -/

/-- Once a command has been executed, and rightly, there is no room for another byte. -/
theorem length_eq_zero (hs : s.Sound) (hf : s.Framed) (hr : t.recv s = some (.data n))
    (hn : Recv.possible s (.data n)) (hrec : s.received n = some msg) :
    s.cliChannel.msgLength = 0 := by
  have hfd := connected_of_recv hr
  have hle := (received_length hs hn hrec).2
  rcases Nat.eq_zero_or_pos s.cliChannel.msgLength with hl | hl
  · exact hl
  · obtain ⟨e, he, hea⟩ := hs.begun hfd hl
    have hwhole := hf.whole 0 e he
    have harr := hs.arrived hfd
    have hpos := hn.1
    omega

theorem Change.sound (k : Change s t s') (hs : s.Sound) (hi : s'.outside = false) : s'.Sound := by
  cases k with
  | quiet => exact ⟨hs.size, hs.arrived, hs.fresh, hs.begun⟩
  | refused | ended | unknown =>
      exact ⟨List.length_replicate .., fun h => absurd rfl h, fun h => absurd rfl h,
        fun h => absurd rfl h⟩
  | accepted =>
      exact ⟨List.length_replicate .., fun _ => rfl, fun _ _ => rfl,
        fun _ h => absurd h (Nat.lt_irrefl _)⟩
  | outside => cases hi
  | @executed registry n msg f hr hn hreg hrec hname =>
      have hfd := connected_of_recv hr
      have harr := hs.arrived hfd
      refine ⟨(received_length hs hn hrec).1, fun _ => congrArg (· + n) harr, ?_, ?_⟩
      · intro _ hzero
        have hpos := hn.1
        dsimp only at hzero
        omega
      · intro _ _
        rcases Nat.eq_zero_or_pos s.cliChannel.msgLength with hl | hl
        · refine ⟨⟨f, msg, s.client.arrived + n⟩, ?_, Nat.le_refl _⟩
          rw [hs.fresh hfd hl]
          rfl
        · obtain ⟨e, he, hea⟩ := hs.begun hfd hl
          refine ⟨e, ?_, Nat.le_add_right_of_le hea⟩
          rw [List.getElem?_append_left (List.getElem?_eq_some_iff.mp he).1, he]

/-- A turn keeps the framing exactly where it receives at the start of `msg`, and all of a message or
no name. -/
theorem Change.framed (k : Change s t s') (hs : s.Sound) (hf : s.Framed) :
    s'.Framed ↔ t.Aligned s := by
  have nothing : t.recv s = none → t.Aligned s := by
    intro hr n hn
    rw [hr] at hn
    cases hn
  cases k with
  | quiet hr | refused hr => exact iff_of_true ⟨hf.inside, hf.whole, hf.order⟩ (nothing hr)
  | accepted hr => exact iff_of_true ⟨hf.inside, by simp, by simp⟩ (nothing hr)
  | ended hr he =>
      refine iff_of_true ⟨hf.inside, hf.whole, hf.order⟩ ?_
      intro n hn
      rw [hr] at hn
      rcases he with rfl | rfl <;> cases hn
  -- bytes outside of `msg`: then `msgLength` was not 0
  | outside hr hn hrec =>
      refine iff_of_false (fun h => absurd h.inside Bool.true_eq_false.mp) ?_
      intro h
      have hl := (h _ hr).1
      have hlt := received_none hs hn hrec
      have hle := hn.2.1
      omega
  | @unknown registry n msg hr hn hreg hrec hname =>
      refine iff_of_true ⟨hf.inside, hf.whole, hf.order⟩ ?_
      intro n' hr'
      cases hr.symm.trans hr'
      refine ⟨length_eq_zero hs hf hr hn hrec, Or.inr ?_⟩
      intro registry' msg' hreg' hrec'
      cases hreg.symm.trans hreg'
      cases hrec.symm.trans hrec'
      exact hname
  -- the first command of the connection, so there is one message to compare it with
  | @executed registry n msg f hr hn hreg hrec hname =>
      have hfd := connected_of_recv hr
      have hl := length_eq_zero hs hf hr hn hrec
      have ha := (hs.arrived hfd).trans hl
      have hexec := hs.fresh hfd hl
      have hone : ∀ {k : Nat} {e : Execution},
          (s.client.executed ++ [⟨f, msg, s.client.arrived + n⟩])[k]? = some e →
            k = 0 ∧ e = ⟨f, msg, n⟩ := by
        intro k e he
        rw [hexec, ha, Nat.zero_add, List.nil_append] at he
        cases k with
        | zero => exact ⟨rfl, (Option.some.inj he).symm⟩
        | succ k => cases he
      constructor
      · intro h n' hr'
        cases hr.symm.trans hr'
        have hwhole := h.whole 0 ⟨f, msg, s.client.arrived + n⟩ (by simp [hexec])
        have hle := hn.2.1
        refine ⟨hl, Or.inl ?_⟩
        dsimp only at hwhole
        omega
      · intro h
        have hsize : n = sizeofNetxCtlMsg := by
          rcases (h n hr).2 with hsize | hno
          · exact hsize
          · exact absurd hname (hno registry msg hreg hrec)
        subst hsize
        refine ⟨hf.inside, ?_, ?_⟩
        · intro k e he
          obtain ⟨rfl, rfl⟩ := hone he
          exact Nat.le_of_eq (Nat.one_mul _)
        · intro k e he
          obtain ⟨rfl, rfl⟩ := hone he
          have hfirst := received_first hs hl ha hn hrec
          exact hfirst

/-- A filter of the name `f`. -/
def oneFilter : Registry where
  heap := [(1, ⟨filterMagic, 1, [102], [], .vnic, 0⟩)]
  filterList := 1 :: List.replicate 99 0
  filterListCount := 1

/-- A message for it. -/
def forFilter : NetxCtlMsg := ⟨102 :: List.replicate 135 0, rfl⟩

/-- A client sends a message, which arrives as a whole. -/
def oneMessage : List Turn :=
  [.ready [] false none (some (5, [forFilter])), .ready [] false (some (.data 136)) none]

/-- It sends another. -/
def twoMessages : List Turn :=
  [.ready [] false none (some (5, [forFilter, forFilter])),
    .ready [] false (some (.data 136)) none, .ready [] false (some (.data 136)) none]

end DistDpi.SelectLoop

import DistDpi.Netx.Filters
import DistDpi.Support.Handles

/-!
# Netx — CLI

The channel for `netx_ctl`, of `netx_sample_service.c`: `CliChannelEvent`, and `selectEventLoop`
with its descriptor.

A step is one turn of the loop, and its label what the calls of the turn return: `select`, the
callbacks that `DVFilter_ProcessSelectEvent` makes, `recv`, `accept`.  The client is part of the
state: the messages it sends on its connection, and how many of their bytes have arrived.  What
the Netx library then does for a command is left out; `CliChannelEvent` returns 0 whatever it
answers.
-/

namespace DistDpi

def invalidFd : Int := -1

/-- `NETX_CTL_STR_SIZE`. -/
def netxCtlStrSize : Nat := 128

/-- `sizeof(NetxCtlMsg_t)`: the name, the action and the command. -/
def sizeofNetxCtlMsg : Nat := netxCtlStrSize + 4 + 4

/-- `NetxCtlMsg_t`, as its bytes. -/
structure NetxCtlMsg where
  bytes : List UInt8
  size : bytes.length = sizeofNetxCtlMsg
  deriving DecidableEq

/-- `filterName`, in the bytes of a message. -/
def msgFilterName (msg : List UInt8) : List UInt8 := msg.take netxCtlStrSize

/-- `filterCliChannel`. -/
structure FilterCliChannel where
  cliChannelFd : Int
  msg : List UInt8
  msgLength : Nat
  deriving DecidableEq, Repr

/-- `InitCliChannel`. -/
def initCliChannel : FilterCliChannel where
  cliChannelFd := invalidFd
  msg := List.replicate sizeofNetxCtlMsg 0
  msgLength := 0

/-- A command that is executed: the filter that the search found, the message from which it, the
action and the command are read, and how many bytes had arrived on the connection. -/
structure Execution where
  filter : FilterPtr
  msg : List UInt8
  arrived : Nat
  deriving DecidableEq, Repr

/-- The connection that was accepted last: what the client sends, the bytes received of it, and
the commands executed for it. -/
structure Client where
  sent : List NetxCtlMsg
  arrived : Nat
  executed : List Execution
  deriving DecidableEq

/-- The bytes that have not arrived. -/
def Client.wire (c : Client) : List UInt8 := (c.sent.flatMap NetxCtlMsg.bytes).drop c.arrived

/-- The state of `selectEventLoop`.  `outside`: bytes were received outside of `cliChannel.msg`, and
nothing can be said from there on. -/
structure SelectLoop where
  registry : Registry
  cliChannel : FilterCliChannel
  client : Client
  log : List (Handles.Use Int)
  outside : Bool
  exited : Bool
  deriving DecidableEq

/-- What `recv` returns. -/
inductive Recv where
  | failed
  | disconnected
  | data (n : Nat)
  deriving DecidableEq, Repr

namespace SelectLoop

/-- `close(fd)`. -/
def close (s : SelectLoop) (fd : Int) : SelectLoop := { s with log := s.log ++ [.release fd] }

/-- The message buffer with the next `n` bytes. -/
def received (s : SelectLoop) (n : Nat) : Option (List UInt8) :=
  copyBytes s.cliChannel.msg s.cliChannel.msgLength (s.client.wire.take n)

/-- `CliChannelEvent`, with what it returns; it does not return where it receives outside of
`msg`. -/
def cliChannelEvent (s : SelectLoop) : Recv → Option (Option Int × SelectLoop)
  -- the channel's descriptor is closed here, and -1 makes the caller close its copy
  | .failed | .disconnected =>
      let s := s.close s.cliChannel.cliChannelFd
      some (some (-1), { s with cliChannel.cliChannelFd := invalidFd })
  | .data n =>
      let arrived := s.client.arrived + n
      match s.received n with
      -- received at `msgLength`, past the end of `msg`
      | none => some (none, { s with client.arrived := arrived, outside := true })
      | some msg =>
          let s := { s with cliChannel.msg := msg, client.arrived := arrived }
          -- the start of `msg` is taken for a command, whatever has arrived of it
          if msg.getD 0 0 = 0 then some (some (-1), s)
          else match s.registry.cliSearch (msgFilterName msg) with
            | none => none
            | some none => some (some (-1), s)
            | some (some f) => some (some 0, { s with
                cliChannel.msgLength := s.cliChannel.msgLength + n
                client.executed := s.client.executed ++ [⟨f, msg, arrived⟩] })

/-- The turn, where the descriptor of the channel can be read.  `cliChannelFd` is the copy that the
turn has made of it. -/
def cliReady (s : SelectLoop) (cliChannelFd : Int) (recv : Recv) : Option SelectLoop :=
  (s.cliChannelEvent recv).map fun (ret, s) =>
    if ret = some (-1) then { s.close cliChannelFd with cliChannel := initCliChannel } else s

/-- The turn, where the server socket can be read: `accept` returns `fd`, on which the client sends
`sent`. -/
def serverReady (s : SelectLoop) (fd : Int) (sent : List NetxCtlMsg) : SelectLoop :=
  if fd < 0 then { s with cliChannel := initCliChannel }
  else { s with
    cliChannel := { initCliChannel with cliChannelFd := fd }
    client := ⟨sent, 0, []⟩
    log := s.log ++ [.acquire fd] }

/-- What a turn meets. -/
inductive Turn where
  /-- `running_` has been reset. -/
  | stopped
  /-- The callbacks, whether DVFilterLib has disconnected, and what `recv` and `accept` return if
  their descriptors can be read. -/
  | ready (callbacks : List Registry.Act) (disconnect : Bool) (cli : Option Recv)
      (server : Option (Int × List NetxCtlMsg))
  /-- `select` returns 0, or is interrupted. -/
  | timeout (callbacks : List Registry.Act)
  /-- `select` fails otherwise. -/
  | failed
  deriving DecidableEq

/-- `recv` returns some of the bytes that have been sent, and at most `sizeof(msg)`. -/
def Recv.possible (s : SelectLoop) : Recv → Prop
  | .failed | .disconnected => True
  | .data n => 0 < n ∧ n ≤ sizeofNetxCtlMsg ∧ n ≤ s.client.wire.length

instance (s : SelectLoop) : ∀ r, Decidable (Recv.possible s r)
  | .failed | .disconnected => isTrue trivial
  | .data _ => inferInstanceAs (Decidable (_ ∧ _))

/-- A turn of `selectEventLoop`. -/
def step (s : SelectLoop) (t : Turn) : Option SelectLoop :=
  if s.exited ∨ s.outside then none
  else
    let cliChannelFd := s.cliChannel.cliChannelFd
    match t with
    | .stopped => some { s with exited := true }
    | .ready callbacks disconnect cli server =>
        (Registry.machine.exec s.registry callbacks).bind fun registry =>
          let s := { s with registry }
          if disconnect then some { s with exited := true }
          else if cliChannelFd ≠ invalidFd then
            match cli with
            | none => some s
            | some recv => if Recv.possible s recv then s.cliReady cliChannelFd recv else none
          else
            match server with
            | none => some s
            | some (fd, sent) => some (s.serverReady fd sent)
    | .timeout callbacks =>
        (Registry.machine.exec s.registry callbacks).map fun registry => { s with registry }
    | .failed => some s

def machine : Machine SelectLoop Turn := ⟨step⟩

/-- The loop as it is entered. -/
def start (registry : Registry) : SelectLoop where
  registry
  cliChannel := initCliChannel
  client := ⟨[], 0, []⟩
  log := []
  outside := false
  exited := false

/-! ### What a turn can do -/

/-- What `recv` returns in the turn, if it is called. -/
def Turn.recv (s : SelectLoop) : Turn → Option Recv
  | .ready _ false (some recv) _ => if s.cliChannel.cliChannelFd ≠ invalidFd then some recv else none
  | _ => none

/-- The callbacks of the turn. -/
def Turn.callbacks : Turn → List Registry.Act
  | .ready callbacks _ _ _ | .timeout callbacks => callbacks
  | .stopped | .failed => []

/-- The message names a filter of the list. -/
def Names (registry : Registry) (msg : List UInt8) : Prop :=
  msg.getD 0 0 ≠ 0 ∧ ∃ f ∈ registry.listed, ∃ impl, registry.deref f = some impl ∧
    Registry.cliMatch (msgFilterName msg) impl

/-- What a turn can do. -/
inductive Change (s : SelectLoop) (t : Turn) : SelectLoop → Prop where
  | quiet {registry : Registry} {exited : Bool} (hr : t.recv s = none) :
      Change s t { s with registry, exited }
  | refused {registry : Registry} (hr : t.recv s = none)
      (hfd : s.cliChannel.cliChannelFd = invalidFd) :
      Change s t { s with registry, cliChannel := initCliChannel }
  | accepted {registry : Registry} {fd : Int} {sent : List NetxCtlMsg} (hr : t.recv s = none)
      (hfd : s.cliChannel.cliChannelFd = invalidFd) (hpos : 0 ≤ fd) :
      Change s t { s with
        registry
        cliChannel := { initCliChannel with cliChannelFd := fd }
        client := ⟨sent, 0, []⟩
        log := s.log ++ [.acquire fd] }
  | ended {registry : Registry} {recv : Recv} (hr : t.recv s = some recv)
      (he : recv = .failed ∨ recv = .disconnected) :
      Change s t { s with
        registry
        cliChannel := initCliChannel
        log := s.log ++ [.release s.cliChannel.cliChannelFd] ++
          [.release s.cliChannel.cliChannelFd] }
  | outside {registry : Registry} {n : Nat} (hr : t.recv s = some (.data n))
      (hn : Recv.possible s (.data n)) (h : s.received n = none) :
      Change s t { s with registry, client.arrived := s.client.arrived + n, outside := true }
  | unknown {registry : Registry} {n : Nat} {msg : List UInt8} (hr : t.recv s = some (.data n))
      (hn : Recv.possible s (.data n))
      (hreg : Registry.machine.exec s.registry t.callbacks = some registry)
      (h : s.received n = some msg) (hname : ¬ Names registry msg) :
      Change s t { s with
        registry
        cliChannel := initCliChannel
        client.arrived := s.client.arrived + n
        log := s.log ++ [.release s.cliChannel.cliChannelFd] }
  | executed {registry : Registry} {n : Nat} {msg : List UInt8} {f : FilterPtr}
      (hr : t.recv s = some (.data n)) (hn : Recv.possible s (.data n))
      (hreg : Registry.machine.exec s.registry t.callbacks = some registry)
      (h : s.received n = some msg) (hname : Names registry msg) :
      Change s t { s with
        registry
        cliChannel := { s.cliChannel with
          msg, msgLength := s.cliChannel.msgLength + n }
        client := { s.client with
          arrived := s.client.arrived + n
          executed := s.client.executed ++ [⟨f, msg, s.client.arrived + n⟩] } }

variable {s s' : SelectLoop} {t : Turn} {recv : Recv}

/-- `recv` is called on a channel. -/
theorem connected_of_recv (h : t.recv s = some recv) : s.cliChannel.cliChannelFd ≠ invalidFd := by
  unfold Turn.recv at h
  split at h
  · exact (Option.ite_none_right_eq_some.mp h).1
  · cases h

/-- The turn with a `recv`. -/
theorem cliReady_change {registry : Registry} (hr : t.recv s = some recv)
    (hreg : Registry.machine.exec s.registry t.callbacks = some registry)
    (hp : Recv.possible s recv)
    (h : cliReady { s with registry } s.cliChannel.cliChannelFd recv = some s') :
    Change s t s' := by
  obtain ⟨⟨ret, s₁⟩, hev, rfl⟩ := Option.map_eq_some_iff.mp h
  cases recv with
  | failed | disconnected =>
      cases hev
      exact .ended hr (by simp)
  | data n =>
      rw [cliChannelEvent] at hev
      cases hrec : s.received n with
      | none =>
          rw [show received { s with registry } n = none from hrec] at hev
          cases hev
          exact .outside hr hp hrec
      | some msg =>
          rw [show received { s with registry } n = some msg from hrec] at hev
          dsimp only at hev
          split at hev
          · cases hev
            exact .unknown hr hp hreg hrec fun h => h.1 ‹_›
          · have hnull : msg.getD 0 0 ≠ 0 := ‹_›
            cases hf : registry.cliSearch (msgFilterName msg) with
            | none => rw [hf] at hev; cases hev
            | some found =>
                rw [hf] at hev
                cases found with
                | none =>
                    cases hev
                    refine .unknown hr hp hreg hrec ?_
                    rintro ⟨-, f, hmem, impl, himpl, hacc⟩
                    exact Registry.search_none hf f hmem impl himpl hacc
                | some f =>
                    cases hev
                    obtain ⟨hmem, hacc⟩ := Registry.search_some hf
                    exact .executed hr hp hreg hrec ⟨hnull, f, hmem, hacc⟩

theorem step_change (h : machine.step s t = some s') : Change s t s' := by
  obtain ⟨-, h⟩ := Option.ite_none_left_eq_some.mp h
  cases t with
  | stopped =>
      cases h
      exact .quiet rfl
  | failed =>
      cases h
      exact .quiet rfl
  | timeout callbacks =>
      obtain ⟨registry, -, rfl⟩ := Option.map_eq_some_iff.mp h
      exact .quiet rfl
  | ready callbacks disconnect cli server =>
      obtain ⟨registry, hreg, h⟩ := Option.bind_eq_some_iff.mp h
      dsimp only at h
      cases disconnect with
      | true =>
          cases h
          exact .quiet rfl
      | false =>
          rw [if_neg Bool.false_ne_true] at h
          by_cases hfd : s.cliChannel.cliChannelFd ≠ invalidFd
          · rw [if_pos hfd] at h
            cases cli with
            | none =>
                cases h
                exact .quiet rfl
            | some recv =>
                obtain ⟨hp, h⟩ := Option.ite_none_right_eq_some.mp h
                exact cliReady_change (if_pos hfd) hreg hp h
          · rw [if_neg hfd] at h
            have hr : (Turn.ready callbacks false cli server).recv s = none := by
              cases cli with
              | none => rfl
              | some recv => exact if_neg hfd
            have hinv := not_not.mp hfd
            cases server with
            | none =>
                cases h
                exact .quiet hr
            | some conn =>
                cases h
                by_cases hneg : conn.1 < 0
                · rw [serverReady, if_pos hneg]
                  exact .refused hr hinv
                · rw [serverReady, if_neg hneg]
                  exact .accepted hr hinv (Int.not_lt.mp hneg)

end SelectLoop

end DistDpi

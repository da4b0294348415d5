import DistDpi.Netx.Cli

/-!
# Netx — descriptors

The descriptors that `accept` returns to `selectEventLoop`, and their `close`.  The loop owns the
descriptor of the channel, and no other (`Holds`); what it closes is its own exactly where no
`recv` returns 0 or less, since `CliChannelEvent` then closes what its caller closes again
(`descriptors_owned`).
-/

namespace DistDpi.SelectLoop
open Handles

variable {s s' : SelectLoop} {t : Turn} {recv : Recv}

/-- Every descriptor is closed where the loop owns it, and not more often than it is accepted. -/
structure ClosesOwn (s : SelectLoop) : Prop where
  proper : Proper s.log
  once : ∀ fd, s.log.count (.release fd) ≤ s.log.count (.acquire fd)

/-- The turn's `recv` returns data, if it is called. -/
def Turn.HasData (s : SelectLoop) (t : Turn) : Prop := ∀ recv ∈ t.recv s, ∃ n, recv = .data n

instance (s : SelectLoop) (t : Turn) : Decidable (t.HasData s) :=
  match h : t.recv s with
  | none => isTrue (by simp [Turn.HasData, h])
  | some (.data n) => isTrue (by simp [Turn.HasData, h])
  | some .failed => isFalse (by simp [Turn.HasData, h])
  | some .disconnected => isFalse (by simp [Turn.HasData, h])

/-- The loop owns the descriptor of the channel. -/
def Holds (s : SelectLoop) : Prop :=
  owned s.log =
    if s.cliChannel.cliChannelFd = invalidFd then [] else [s.cliChannel.cliChannelFd]

theorem closesOwn_iff : s.ClosesOwn ↔ Proper s.log :=
  ⟨ClosesOwn.proper, fun h => ⟨h, h.released_le⟩⟩

theorem Holds.disconnected (h : s.Holds) (hfd : s.cliChannel.cliChannelFd = invalidFd) :
    owned s.log = [] := h.trans (if_pos hfd)

theorem Holds.connected (h : s.Holds) (hr : t.recv s = some recv) :
    owned s.log = [s.cliChannel.cliChannelFd] := h.trans (if_neg (connected_of_recv hr))

/-- The first `close` leaves the loop without a descriptor. -/
theorem Holds.closed (h : s.Holds) (hr : t.recv s = some recv) :
    owned (s.log ++ [.release s.cliChannel.cliChannelFd]) = [] := by
  rw [owned_concat, h.connected hr, hold, List.erase_cons_head]

theorem Change.holds (k : Change s t s') (h : s.Holds) : s'.Holds := by
  cases k with
  | quiet | outside => exact h
  | refused hr hfd => exact h.disconnected hfd
  | @accepted registry fd sent hr hfd hpos =>
      have hne : fd ≠ invalidFd := by
        rintro rfl
        exact absurd hpos (by decide)
      rw [Holds, if_neg hne, owned_concat, h.disconnected hfd]
      rfl
  | ended hr he =>
      rw [Holds, owned_concat, h.closed hr]
      rfl
  | unknown hr hn hreg hrec hname => exact h.closed hr
  | executed hr hn hreg hrec hname => exact h

/-- A turn closes what the loop owns exactly where `recv` does not fail. -/
theorem Change.closesOwn (k : Change s t s') (h : s.Holds) (hc : s.ClosesOwn) :
    s'.ClosesOwn ↔ t.HasData s := by
  have hproper := hc.proper
  have nothing : t.recv s = none → t.HasData s := by
    intro hr recv hm
    rw [hr] at hm
    cases hm
  have data : ∀ {n}, t.recv s = some (.data n) → t.HasData s := by
    intro n hr recv hm
    rw [hr] at hm
    cases hm
    exact ⟨n, rfl⟩
  rw [closesOwn_iff]
  cases k with
  | quiet hr | refused hr => exact iff_of_true hproper (nothing hr)
  | accepted hr => exact iff_of_true (proper_acquire.mpr hproper) (nothing hr)
  | @ended registry recv hr he =>
      refine iff_of_false ?_ ?_
      · -- the second `close`
        intro hp
        have hm := (proper_release.mp hp).2
        rw [h.closed hr] at hm
        cases hm
      · intro hd
        obtain ⟨n, rfl⟩ := hd recv hr
        rcases he with he | he <;> cases he
  | outside hr => exact iff_of_true hproper (data hr)
  | unknown hr =>
      refine iff_of_true (proper_release.mpr ⟨hproper, ?_⟩) (data hr)
      rw [h.connected hr]
      exact List.mem_singleton_self _
  | executed hr => exact iff_of_true hproper (data hr)

/-- **Descriptor ownership.**  Over a run of the loop, every descriptor is closed where the loop owns
it, and not more often than it is accepted, exactly where each `recv` returns data. -/
theorem descriptors_owned {registry : Registry} {ts : List Turn}
    (h : machine.Run (start registry) ts s) :
    machine.Throughout ClosesOwn (start registry) ts ↔
      machine.Along (fun s t => t.HasData s) (start registry) ts :=
  Machine.throughout_iff_along (fun _ _ _ hI _ hs => (step_change hs).holds hI)
    (fun _ _ _ hI hc hs => (step_change hs).closesOwn hI hc) h rfl (closesOwn_iff.mpr proper_nil)

/-- A client connects, and sends a name that no filter has. -/
def stranger : List Turn :=
  [.ready [] false none (some (5, [⟨List.replicate 136 65, rfl⟩])),
    .ready [] false (some (.data 136)) none]

theorem descriptors_owned_stranger :
    machine.Throughout ClosesOwn (start (Registry.start [])) stranger :=
  (descriptors_owned (Machine.run_of_exec (by decide +kernel))).mpr (by decide +kernel)

/-- A client connects, and goes. -/
def passing : List Turn :=
  [.ready [] false none (some (5, [])), .ready [] false (some .disconnected) none]

theorem not_descriptors_owned : ¬ ∀ (registry : Registry) (ts : List Turn) (s : SelectLoop),
    machine.Run (start registry) ts s → machine.Throughout ClosesOwn (start registry) ts := by
  intro h
  have hrun : machine.Run (start (Registry.start [])) passing _ := Machine.run_of_exec (by decide)
  have honce := ((h _ _ _ hrun).last hrun).once 5
  revert honce
  decide

end DistDpi.SelectLoop

import DistDpi.Netx.Cli
import DistDpi.Netx.ConnInfo

/-!
# Netx — commands

What the commands of `netx_ctl` make the agent ask of the Netx library, and what it makes of the
replies: the end of `CliChannelEvent`, and `Netx_LibReply_Callback`, in any order.

* `calls_as_told`: the calls to the library are those that the replies and the commands say, record
  by record, although the agent has the records as bytes only, and writes into them.
* `heap_exact`: the buffer of the records is not freed twice; it leaks where another reply comes
  before the command.
-/

namespace DistDpi
open Slices

def NETXCMD_GET_CONNTRACK_COUNT : UInt32 := 2

def NETX_CTL_GET_CONNTRACK_COUNT : UInt32 := 2

def NETX_CTL_GET_CONNTRACK_ALL_BRIEF : UInt32 := 4

def NETX_CTL_GET_SERVICE_PROFILE_ID : UInt32 := 5

def NETX_CTL_SET_CONNTRACK_ACTION_BRIEF : UInt32 := 7

def NETX_CTL_SET_DEFAULT_ACTION_ON_VMOTION : UInt32 := 8

def NETX_CTL_GET_SERVICE_INFO : UInt32 := 9

/-- `sizeof(Netx_Conn_Count_Data_t)`, with its payload. -/
def sizeofConnCount : Nat := sizeofMsgHdr + 4

/-- `internalData`, the cookie of a request. -/
structure InternalData where
  id : Int
  val : Int
  deriving DecidableEq, Repr

/-- A call to the Netx library.  The filter stands for its handle. -/
inductive NetxCall where
  | setDefaultConnAction (f : FilterPtr) (action : UInt32)
  | getServiceProfileId (f : FilterPtr) (pvt_data : InternalData)
  | getConnCount (f : FilterPtr) (pvt_data : InternalData)
  | getConnInfoBrief (f : FilterPtr) (num_conn_req : Option Int) (pvt_data : InternalData)
  | getServiceInfo (f : FilterPtr) (pvt_data : InternalData)
  | setConnInfoBrief (f : FilterPtr) (conn_info : List (Option UInt8)) (conn_info_size : Int)
      (num_conn_set : Int) (pvt_data : InternalData)
  deriving DecidableEq, Repr

/-- `recvd_msg.action`. -/
def msgAction (msg : List UInt8) : UInt32 := load32At msg netxCtlStrSize

/-- `msg.cmd`. -/
def msgCmd (msg : List UInt8) : UInt32 := load32At msg (netxCtlStrSize + 4)

/-- The globals.  `num_conn_g` is `none` if it was read from outside of the reply; `conn_set_g` is
the address of the buffer in `connSet`.  The blocks allocated and freed, and the calls, are logged. -/
structure Commands where
  num_conn_g : Option Int
  connSet : ConnSet
  conn_set_g : Option Nat
  heap : List (Handles.Use Nat)
  calls : List NetxCall
  deriving DecidableEq, Repr

namespace Commands

/-- As `netx_sample_service.c` defines them. -/
def start : Commands := ⟨some 0, .init, none, [], []⟩

/-- `Netx_LibReply_Callback`, less what it prints; `malloc` is what `malloc` returns. -/
def netxLibReplyCallback (s : Commands) (payload : List UInt8) (malloc : Option Nat) : Commands :=
  if payload.length < sizeofMsgHdr then s
  else if hdrCmd payload = NETXCMD_GET_CONNTRACK_COUNT then
    -- the length is not checked again
    { s with num_conn_g :=
        if sizeofConnCount ≤ payload.length then
          some (asInt (load32At payload sizeofMsgHdr).toNat)
        else none }
  else if hdrCmd payload = NETXCMD_GET_CONNTRACK_ALL_BRIEF then
    { s with
      connSet := s.connSet.netxLibReplyCallback payload malloc.isSome
      -- what `conn_set_g` was is not freed
      conn_set_g := malloc
      heap := s.heap ++ malloc.toList.map .acquire }
  else s

def call (s : Commands) (c : NetxCall) : Commands := { s with calls := s.calls ++ [c] }

/-- `NETX_CTL_SET_CONNTRACK_ACTION_BRIEF`. -/
def setConntrackActionBrief (s : Commands) (f : FilterPtr) (action : UInt32) (ok : Bool) :
    Commands :=
  match s.connSet.conn_set_g with
  | none => s
  | some buf =>
      match ConnSet.setActions action s.connSet.num_conn_set_g.toNat 0 buf with
      | none => { s with connSet.outside := true }
      | some buf =>
          let s := s.call (.setConnInfoBrief f buf s.connSet.conn_set_g_size
            s.connSet.num_conn_set_g ⟨10, 10⟩)
          if ok then
            { s with
              connSet.conn_set_g := none
              conn_set_g := none
              heap := s.heap ++ s.conn_set_g.toList.map .release }
          else { s with connSet.conn_set_g := some buf }

/-- `CliChannelEvent`, once it has found the filter; `ok` is whether the library returns
`NETX_STATUS_OK`.  The source has an `if` for each command, one behind the other. -/
def cliCommand (s : Commands) (e : Execution) (ok : Bool) : Commands :=
  let cmd := msgCmd e.msg
  if cmd = NETX_CTL_SET_DEFAULT_ACTION_ON_VMOTION then
    s.call (.setDefaultConnAction e.filter (msgAction e.msg))
  else if cmd = NETX_CTL_GET_SERVICE_PROFILE_ID then
    s.call (.getServiceProfileId e.filter ⟨20, 20⟩)
  else if cmd = NETX_CTL_GET_CONNTRACK_COUNT then s.call (.getConnCount e.filter ⟨2, 2⟩)
  else if cmd = NETX_CTL_GET_CONNTRACK_ALL_BRIEF then
    s.call (.getConnInfoBrief e.filter s.num_conn_g ⟨5, 5⟩)
  else if cmd = NETX_CTL_GET_SERVICE_INFO then s.call (.getServiceInfo e.filter ⟨120, 120⟩)
  else if cmd = NETX_CTL_SET_CONNTRACK_ACTION_BRIEF then
    s.setConntrackActionBrief e.filter (msgAction e.msg) ok
  else s

/-- A reply of the library, or a command that `CliChannelEvent` executes. -/
inductive Act where
  | reply (payload : List UInt8) (malloc : Option Nat)
  | command (e : Execution) (ok : Bool)
  deriving DecidableEq, Repr

/-- `malloc` gives a block that is not in use.  Nothing can be said once the loop has written outside
of the buffer. -/
def step (s : Commands) (a : Act) : Option Commands :=
  if s.connSet.outside then none
  else match a with
    | .reply payload malloc =>
        if ∀ p ∈ malloc, p ∉ Handles.owned s.heap then some (s.netxLibReplyCallback payload malloc)
        else none
    | .command e ok => some (s.cliCommand e ok)

def machine : Machine Commands Act := ⟨step⟩

end Commands

/-! ### Records -/

/-- `Netx_Conn_Info_Brief_t`: what is before the action, and what is behind. -/
structure ConnRecord where
  head : Vector UInt8 50
  action : UInt32
  tail : Vector UInt8 124
  deriving DecidableEq

namespace ConnRecord

def encode (r : ConnRecord) : List UInt8 := r.head.toList ++ store32 r.action ++ r.tail.toList

def ofBytes (bytes : List UInt8) : ConnRecord where
  head := .ofFn fun i => byteAt bytes i
  action := load32At bytes actionOffset
  tail := .ofFn fun i => byteAt bytes (actionOffset + 4 + i)

def withAction (action : UInt32) (r : ConnRecord) : ConnRecord := { r with action }

/-- Records, one behind the other. -/
def encodeAll (rs : List ConnRecord) : List UInt8 := rs.flatMap encode

/-- The first `n` records. -/
def decodeAll (n : Nat) (bytes : List UInt8) : List ConnRecord :=
  (List.range n).map fun i => ofBytes (bytes.drop (sizeofConnInfoBrief * i))

end ConnRecord

/-! ### What the agent is told -/

namespace Commands

/-- The records of a reply. -/
def replyRecords (payload : List UInt8) : List ConnRecord :=
  ConnRecord.decodeAll (hdrCount payload).toNat (payload.drop sizeofConnData)

/-- What the agent has been told: how many connections there are, and the connections whose action is
to be set. -/
structure Told where
  count : Int
  conns : Option (List ConnRecord)

namespace Told

def hear (t : Told) : Act → Told
  | .reply payload malloc =>
      if payload.length < sizeofMsgHdr then t
      else if hdrCmd payload = NETXCMD_GET_CONNTRACK_COUNT then
        { t with count := asInt (load32At payload sizeofMsgHdr).toNat }
      else if hdrCmd payload = NETXCMD_GET_CONNTRACK_ALL_BRIEF then
        { t with conns := malloc.map fun _ => replyRecords payload }
      else t
  | .command e ok =>
      if msgCmd e.msg = NETX_CTL_SET_CONNTRACK_ACTION_BRIEF ∧ ok then { t with conns := none } else t

/-- The call that a command makes. -/
def call (t : Told) : Act → Option NetxCall
  | .reply .. => none
  | .command e _ =>
      let cmd := msgCmd e.msg
      if cmd = NETX_CTL_SET_DEFAULT_ACTION_ON_VMOTION then
        some (.setDefaultConnAction e.filter (msgAction e.msg))
      else if cmd = NETX_CTL_GET_SERVICE_PROFILE_ID then
        some (.getServiceProfileId e.filter ⟨20, 20⟩)
      else if cmd = NETX_CTL_GET_CONNTRACK_COUNT then some (.getConnCount e.filter ⟨2, 2⟩)
      else if cmd = NETX_CTL_GET_CONNTRACK_ALL_BRIEF then
        some (.getConnInfoBrief e.filter (some t.count) ⟨5, 5⟩)
      else if cmd = NETX_CTL_GET_SERVICE_INFO then some (.getServiceInfo e.filter ⟨120, 120⟩)
      else if cmd = NETX_CTL_SET_CONNTRACK_ACTION_BRIEF then
        -- every record, as it was told, with the action of the command
        t.conns.map fun rs => .setConnInfoBrief e.filter
          ((ConnRecord.encodeAll (rs.map (.withAction (msgAction e.msg)))).map some)
          (sizeofConnInfoBrief * rs.length) rs.length ⟨10, 10⟩
      else none

/-- The calls that the replies and the commands say. -/
def calls : Told → List Act → List NetxCall
  | _, [] => []
  | t, a :: acts => (t.call a).toList ++ calls (t.hear a) acts

end Told

/-- A reply does what its header says: it has the count, or as many records, less than 2 GiB of
them. -/
def Act.Whole : Act → Prop
  | .reply payload _ =>
      (hdrCmd payload = NETXCMD_GET_CONNTRACK_COUNT → sizeofConnCount ≤ payload.length) ∧
        (hdrCmd payload = NETXCMD_GET_CONNTRACK_ALL_BRIEF →
          sizeofConnInfoBrief * (hdrCount payload).toNat < 2 ^ 31 ∧
            sizeofConnData + sizeofConnInfoBrief * (hdrCount payload).toNat ≤ payload.length)
  | .command .. => True

instance : ∀ a : Act, Decidable a.Whole
  | .reply .. => inferInstanceAs (Decidable (_ ∧ _))
  | .command .. => isTrue trivial

/-- A reply that has connections. -/
def Act.Brief : Act → Prop
  | .reply payload _ =>
      sizeofMsgHdr ≤ payload.length ∧ hdrCmd payload = NETXCMD_GET_CONNTRACK_ALL_BRIEF
  | .command .. => False

instance : ∀ a : Act, Decidable a.Brief
  | .reply .. => inferInstanceAs (Decidable (_ ∧ _))
  | .command .. => isFalse id

/-- The buffer that is lost in a step: `conn_set_g` is written over, and it was not freed. -/
def lost (s : Commands) (a : Act) : Option Nat := if a.Brief then s.conn_set_g else none

end Commands

namespace ConnRecord
variable {bytes : List UInt8} {n i : Nat} {rs : List ConnRecord}

/-! ### Records and bytes -/

theorem bytes_ntohl {b₀ b₁ b₂ b₃ : UInt8} : store32 (ntohl b₃ b₂ b₁ b₀) = [b₀, b₁, b₂, b₃] := by
  have h₀ := b₀.toNat_lt
  have h₁ := b₁.toNat_lt
  have h₂ := b₂.toNat_lt
  have h₃ := b₃.toNat_lt
  have hv := ntohl_toNat b₃ b₂ b₁ b₀
  rw [store32]
  congr 1
  · rw [← UInt8.toNat_inj, UInt32.toNat_toUInt8, hv]
    omega
  congr 1
  · rw [← UInt8.toNat_inj, UInt32.toNat_toUInt8, UInt32.toNat_shiftRight, Nat.shiftRight_eq_div_pow,
      hv]
    simp only [UInt32.reduceToNat, Nat.reduceMod]
    omega
  congr 1
  · rw [← UInt8.toNat_inj, UInt32.toNat_toUInt8, UInt32.toNat_shiftRight, Nat.shiftRight_eq_div_pow,
      hv]
    simp only [UInt32.reduceToNat, Nat.reduceMod]
    omega
  congr 1
  rw [← UInt8.toNat_inj, UInt32.toNat_toUInt8, UInt32.toNat_shiftRight, Nat.shiftRight_eq_div_pow, hv]
  simp only [UInt32.reduceToNat, Nat.reduceMod]
  omega

@[simp] theorem length_encode (r : ConnRecord) : r.encode.length = sizeofConnInfoBrief := by
  simp only [encode, List.length_append, Vector.length_toList]
  rfl

theorem length_encodeAll : (encodeAll rs).length = sizeofConnInfoBrief * rs.length := by
  induction rs with
  | nil => rfl
  | cons r rs ih =>
      rw [encodeAll, List.flatMap_cons, List.length_append, length_encode]
      change _ + (encodeAll rs).length = _
      rw [ih, List.length_cons, Nat.mul_succ, Nat.add_comm]

/-- Bytes of a list, one after the other. -/
theorem ofFn_byteAt {off : Nat} (h : off + n ≤ bytes.length) :
    (Vector.ofFn fun i : Fin n => byteAt bytes (off + i)).toList = (bytes.drop off).take n := by
  refine List.ext_getElem ?_ fun i h₁ h₂ => ?_
  · rw [Vector.length_toList, List.length_take_of_le (by rw [List.length_drop]; omega)]
  · rw [Vector.length_toList] at h₁
    rw [Vector.getElem_toList, Vector.getElem_ofFn, List.getElem_take, List.getElem_drop,
      Parse.byteAt_of_lt (by omega)]

theorem encode_ofBytes (h : sizeofConnInfoBrief ≤ bytes.length) :
    (ofBytes bytes).encode = bytes.take sizeofConnInfoBrief := by
  have hlen : 178 ≤ bytes.length := h
  have hhead := ofFn_byteAt (show 0 + 50 ≤ bytes.length by omega)
  have htail := ofFn_byteAt (show 54 + 124 ≤ bytes.length by omega)
  have haction : store32 (load32At bytes 50) = (bytes.drop 50).take 4 := by
    rw [load32At, bytes_ntohl, ← ofFn_byteAt (show 50 + 4 ≤ bytes.length by omega)]
    rfl
  have hsplit : bytes.take 178 = bytes.take 50 ++ (bytes.drop 50).take 4 ++
      (bytes.drop 54).take 124 := by
    rw [← List.take_add, ← List.take_add]
  simp only [Nat.zero_add, List.drop_zero] at hhead
  change (Vector.ofFn fun i : Fin 50 => byteAt bytes i).toList ++ store32 (load32At bytes 50) ++
    (Vector.ofFn fun i : Fin 124 => byteAt bytes (54 + i)).toList = bytes.take 178
  rw [hhead, haction, htail, hsplit]

/-- **Records there are** are encoded as the bytes they were decoded from. -/
theorem encodeAll_decodeAll (h : sizeofConnInfoBrief * n ≤ bytes.length) :
    encodeAll (decodeAll n bytes) = bytes.take (sizeofConnInfoBrief * n) := by
  induction n with
  | zero => rfl
  | succ n ih =>
      rw [Nat.mul_succ] at h ⊢
      have hlast : (ofBytes (bytes.drop (sizeofConnInfoBrief * n))).encode =
          (bytes.drop (sizeofConnInfoBrief * n)).take sizeofConnInfoBrief :=
        encode_ofBytes (by rw [List.length_drop]; omega)
      rw [encodeAll, decodeAll, List.range_succ, List.map_append, List.flatMap_append]
      change encodeAll (decodeAll n bytes) ++ _ = _
      rw [ih (by omega), List.map_singleton, List.flatMap_singleton, hlast, List.take_add]

theorem length_decodeAll : (decodeAll n bytes).length = n := by
  rw [decodeAll, List.length_map, List.length_range]

/-- The action of a record, written over. -/
theorem patch_encode (action : UInt32) (r : ConnRecord) (pre post : List (Option UInt8)) :
    patch (pre ++ r.encode.map some ++ post) (pre.length + actionOffset)
      ((store32 action).map some) = pre ++ (r.withAction action).encode.map some ++ post := by
  have hhead : (r.head.toList.map some).length = actionOffset := by
    rw [List.length_map, Vector.length_toList]
    rfl
  have hold : ∀ v, ((store32 v).map some).length = 4 := fun _ => rfl
  have hpre : pre ++ r.encode.map some ++ post = (pre ++ r.head.toList.map some) ++
      ((store32 r.action).map some ++ (r.tail.toList.map some ++ post)) := by
    simp only [encode, List.map_append, List.append_assoc]
  have hlen : (pre ++ r.head.toList.map some).length = pre.length + actionOffset := by
    rw [List.length_append, hhead]
  rw [hpre, patch, hold, List.take_left' hlen, ← List.drop_drop, List.drop_left' hlen,
    List.drop_left' (hold r.action)]
  simp only [encode, withAction, List.map_append, List.append_assoc]

/-- **The loop** sets the action in each of the records that are left. -/
theorem setActions_encodeAll (action : UInt32) {pre : List (Option UInt8)}
    (h : pre.length = sizeofConnInfoBrief * i) :
    ConnSet.setActions action rs.length i (pre ++ (encodeAll rs).map some) =
      some (pre ++ (encodeAll (rs.map (.withAction action))).map some) := by
  induction rs generalizing i pre with
  | nil => rfl
  | cons r rs ih =>
      have hsplit : ∀ r : ConnRecord, ∀ rs, pre ++ (encodeAll (r :: rs)).map some =
          pre ++ r.encode.map some ++ (encodeAll rs).map some := fun r rs => by
        rw [encodeAll, List.flatMap_cons, List.map_append, ← List.append_assoc]
        rfl
      have hnext : (pre ++ (r.withAction action).encode.map some).length =
          sizeofConnInfoBrief * (i + 1) := by
        rw [List.length_append, List.length_map, length_encode, h, Nat.mul_succ]
      have hfit : sizeofConnInfoBrief * i + actionOffset + 4 ≤
          (pre ++ r.encode.map some ++ (encodeAll rs).map some).length := by
        have hr : sizeofConnInfoBrief = 178 := rfl
        have ha : actionOffset = 50 := rfl
        simp only [List.length_append, List.length_map, length_encode, h]
        omega
      rw [hsplit, List.length_cons, ConnSet.setActions, if_pos hfit, ← h, patch_encode, ih hnext,
        List.map_cons, hsplit]

end ConnRecord

namespace Commands
open ConnRecord

section
variable {s s' : Commands} {t : Told} {a : Act} {acts : List Act} {payload : List UInt8}

/-! ### Replies and commands -/

/-- What the agent has in its globals is what it has been told.  Of a record it may have another
action: a command that has failed has set it. -/
structure Knows (s : Commands) (t : Told) : Prop where
  inside : s.connSet.outside = false
  count : s.num_conn_g = some t.count
  idle : t.conns = none → s.connSet.conn_set_g = none
  records : ∀ rs, t.conns = some rs → s.connSet.conn_set_g_size = sizeofConnInfoBrief * rs.length ∧
    s.connSet.num_conn_set_g = rs.length ∧
    ∃ rs', s.connSet.conn_set_g = some ((encodeAll rs').map some) ∧ rs'.length = rs.length ∧
      ∀ action, rs'.map (withAction action) = rs.map (withAction action)

/-- The copy of a reply that has its records. -/
theorem copyPayload_whole (h : sizeofConnData + sizeofConnInfoBrief * (hdrCount payload).toNat ≤
      payload.length) :
    ConnSet.copyPayload payload (sizeofConnInfoBrief * (hdrCount payload).toNat) =
      (encodeAll (replyRecords payload)).map some := by
  have hin : sizeofConnInfoBrief * (hdrCount payload).toNat ≤
      (payload.drop sizeofConnData).length := by
    rw [List.length_drop]
    omega
  rw [replyRecords, encodeAll_decodeAll hin]
  refine List.ext_getElem? fun i => ?_
  rw [ConnSet.copyPayload, List.getElem?_map, List.getElem?_map, List.getElem?_take]
  by_cases hi : i < sizeofConnInfoBrief * (hdrCount payload).toNat
  · rw [List.getElem?_range hi, if_pos hi, List.getElem?_drop]
    have hlt : sizeofConnData + i < payload.length := by omega
    rw [List.getElem?_eq_getElem hlt]
    simp only [Option.map_some, List.getElem?_eq_getElem hlt]
  · rw [if_neg hi, List.getElem?_eq_none (by rw [List.length_range]; omega)]
    rfl

/-- A number that is an `int` and a `size_t`. -/
theorem asInt_of_lt {n : Nat} (h : n < 2 ^ 31) : asInt n = n ∧ asSize n = n := by
  have hmod : n % 2 ^ 32 = n := Nat.mod_eq_of_lt (Nat.lt_trans h (by decide))
  refine ⟨?_, ?_⟩
  · rw [asInt, hmod, if_pos h]
    omega
  · rw [asSize]
    omega

theorem netxLibReplyCallback_calls (malloc : Option Nat) :
    (s.netxLibReplyCallback payload malloc).calls = s.calls := by
  unfold netxLibReplyCallback
  split_ifs <;> rfl

theorem Knows.reply (h : s.Knows t) (malloc : Option Nat) (hw : (Act.reply payload malloc).Whole) :
    (s.netxLibReplyCallback payload malloc).Knows (t.hear (.reply payload malloc)) := by
  unfold netxLibReplyCallback Told.hear
  dsimp only
  by_cases hshort : payload.length < sizeofMsgHdr
  · rw [if_pos hshort, if_pos hshort]
    exact h
  rw [if_neg hshort, if_neg hshort]
  by_cases hcount : hdrCmd payload = NETXCMD_GET_CONNTRACK_COUNT
  · rw [if_pos hcount, if_pos hcount, if_pos (hw.1 hcount)]
    exact ⟨h.inside, rfl, h.idle, h.records⟩
  rw [if_neg hcount, if_neg hcount]
  by_cases hbrief : hdrCmd payload = NETXCMD_GET_CONNTRACK_ALL_BRIEF
  · rw [if_pos hbrief, if_pos hbrief]
    obtain ⟨hlt, hin⟩ := hw.2 hbrief
    have hconn : s.connSet.netxLibReplyCallback payload malloc.isSome =
        { s.connSet with
          conn_set_g :=
            if malloc.isSome then some ((encodeAll (replyRecords payload)).map some) else none
          conn_set_g_size := sizeofConnInfoBrief * (hdrCount payload).toNat
          num_conn_set_g := (hdrCount payload).toNat } := by
      obtain ⟨hnum, hnum'⟩ := asInt_of_lt (n := (hdrCount payload).toNat) (by
        unfold sizeofConnInfoBrief at hlt
        omega)
      obtain ⟨hsize, hsize'⟩ := asInt_of_lt hlt
      rw [Nat.mul_comm] at hsize
      rw [ConnSet.netxLibReplyCallback, if_neg hshort, if_pos hbrief, ← copyPayload_whole hin, hnum]
      dsimp only
      rw [hnum', hsize, Nat.mul_comm, hsize', Int.natCast_mul]
    rw [hconn]
    refine ⟨h.inside, h.count, fun hnone => ?_, fun rs hrs => ?_⟩
    · cases malloc with
      | none => rfl
      | some p => cases hnone
    · cases malloc with
      | none => cases hrs
      | some p =>
          cases hrs
          have hlen : (replyRecords payload).length = (hdrCount payload).toNat := length_decodeAll
          rw [hlen]
          exact ⟨rfl, rfl, replyRecords payload, rfl, hlen, fun _ => rfl⟩
  · rw [if_neg hbrief, if_neg hbrief]
    exact h

/-- A command that is not `NETX_CTL_SET_CONNTRACK_ACTION_BRIEF` leaves what is known. -/
theorem Knows.call (h : s.Knows t) (c : NetxCall) : (s.call c).Knows t :=
  ⟨h.inside, h.count, h.idle, h.records⟩

/-- **The command that sets the action**: every record is as it was told, but for the action. -/
theorem Knows.setConntrackActionBrief (h : s.Knows t) (f : FilterPtr) (action : UInt32) (ok : Bool) :
    (s.setConntrackActionBrief f action ok).Knows { t with conns := if ok then none else t.conns } ∧
      (s.setConntrackActionBrief f action ok).calls = s.calls ++
        (t.conns.map fun rs => NetxCall.setConnInfoBrief f
          ((encodeAll (rs.map (withAction action))).map some)
          (sizeofConnInfoBrief * rs.length) rs.length ⟨10, 10⟩).toList := by
  unfold Commands.setConntrackActionBrief
  cases ht : t.conns with
  | none =>
      rw [h.idle ht]
      exact ⟨⟨h.inside, h.count, fun _ => h.idle ht, fun rs hrs => by cases ok <;> cases hrs⟩,
        (List.append_nil _).symm⟩
  | some rs =>
      obtain ⟨hsize, hnum, rs', hbuf, hlen, hact⟩ := h.records rs ht
      have hloop : ConnSet.setActions action s.connSet.num_conn_set_g.toNat 0
          ((encodeAll rs').map some) = some ((encodeAll (rs'.map (withAction action))).map some) := by
        rw [hnum, Int.toNat_natCast, ← hlen]
        exact setActions_encodeAll action
          (show ([] : List (Option UInt8)).length = sizeofConnInfoBrief * 0 from rfl)
      rw [hbuf]
      dsimp only
      rw [hloop]
      dsimp only
      have hcalls : s.calls ++ [NetxCall.setConnInfoBrief f
          ((encodeAll (rs'.map (withAction action))).map some) s.connSet.conn_set_g_size
          s.connSet.num_conn_set_g ⟨10, 10⟩] = s.calls ++ [NetxCall.setConnInfoBrief f
          ((encodeAll (rs.map (withAction action))).map some)
          (sizeofConnInfoBrief * rs.length) rs.length ⟨10, 10⟩] := by
        rw [hact, hsize, hnum]
      cases ok with
      | true => exact ⟨⟨h.inside, h.count, fun _ => rfl, nofun⟩, hcalls⟩
      | false =>
          refine ⟨⟨h.inside, h.count, nofun, ?_⟩, hcalls⟩
          rintro _ ⟨⟩
          refine ⟨hsize, hnum, rs'.map (withAction action), rfl, ?_, fun action' => ?_⟩
          · rw [List.length_map, hlen]
          · rw [List.map_map, ← hact action']
            rfl

theorem Knows.command (h : s.Knows t) (e : Execution) (ok : Bool) :
    (s.cliCommand e ok).Knows (t.hear (.command e ok)) ∧
      (s.cliCommand e ok).calls = s.calls ++ (t.call (.command e ok)).toList := by
  by_cases hset : msgCmd e.msg = NETX_CTL_SET_CONNTRACK_ACTION_BRIEF
  · unfold Told.hear cliCommand Told.call
    obtain ⟨hknows, hcalls⟩ := h.setConntrackActionBrief e.filter (msgAction e.msg) ok
    have hne : NETX_CTL_SET_CONNTRACK_ACTION_BRIEF ≠ NETX_CTL_SET_DEFAULT_ACTION_ON_VMOTION ∧
        NETX_CTL_SET_CONNTRACK_ACTION_BRIEF ≠ NETX_CTL_GET_SERVICE_PROFILE_ID ∧
        NETX_CTL_SET_CONNTRACK_ACTION_BRIEF ≠ NETX_CTL_GET_CONNTRACK_COUNT ∧
        NETX_CTL_SET_CONNTRACK_ACTION_BRIEF ≠ NETX_CTL_GET_CONNTRACK_ALL_BRIEF ∧
        NETX_CTL_SET_CONNTRACK_ACTION_BRIEF ≠ NETX_CTL_GET_SERVICE_INFO := by decide
    simp only [hset, hne, ↓reduceIte, true_and]
    refine ⟨?_, hcalls⟩
    cases ok <;> exact hknows
  · have hhear : t.hear (.command e ok) = t := if_neg fun k => hset k.1
    rw [hhear, cliCommand, Told.call, h.count]
    have silent : s.Knows t ∧ s.calls = s.calls ++ (none : Option NetxCall).toList :=
      ⟨h, (List.append_nil _).symm⟩
    split_ifs
    all_goals first | exact ⟨h.call _, rfl⟩ | exact silent

/-- **One step.** -/
theorem Knows.step (h : s.Knows t) (hw : a.Whole) (hs : machine.step s a = some s') :
    s'.Knows (t.hear a) ∧ s'.calls = s.calls ++ (t.call a).toList := by
  change (if s.connSet.outside then none else _) = _ at hs
  rw [h.inside, if_neg Bool.false_ne_true] at hs
  cases a with
  | reply payload malloc =>
      obtain ⟨-, hs⟩ := Option.ite_none_right_eq_some.1 hs
      cases hs
      exact ⟨h.reply malloc hw, (netxLibReplyCallback_calls malloc).trans (List.append_nil _).symm⟩
  | command e ok =>
      cases hs
      exact h.command e ok

theorem Knows.run (h : s.Knows t) (hr : machine.Run s acts s') (hw : ∀ a ∈ acts, a.Whole) :
    s'.connSet.outside = false ∧ s'.calls = s.calls ++ t.calls acts := by
  induction hr generalizing t with
  | refl => exact ⟨h.inside, (List.append_nil _).symm⟩
  | more hs _ ih =>
      obtain ⟨ha, has⟩ := List.forall_mem_cons.1 hw
      obtain ⟨hk, hcalls⟩ := h.step ha hs
      obtain ⟨hinside, hrest⟩ := ih hk has
      exact ⟨hinside, by rw [hrest, hcalls, List.append_assoc]; rfl⟩

/-! ### The globals of the connections -/

/-- A reply that has no connections. -/
theorem reply_of_not_brief {malloc : Option Nat} (h : ¬ (Act.reply payload malloc).Brief) :
    ∃ num_conn_g, s.netxLibReplyCallback payload malloc = { s with num_conn_g } := by
  unfold netxLibReplyCallback
  by_cases hshort : payload.length < sizeofMsgHdr
  · exact ⟨_, if_pos hshort⟩
  · rw [if_neg hshort, if_neg fun hbrief => h ⟨Nat.le_of_not_lt hshort, hbrief⟩]
    by_cases hcount : hdrCmd payload = NETXCMD_GET_CONNTRACK_COUNT
    · exact ⟨_, if_pos hcount⟩
    · exact ⟨_, if_neg hcount⟩

/-- One that has some. -/
theorem reply_of_brief {malloc : Option Nat} (h : (Act.reply payload malloc).Brief) :
    s.netxLibReplyCallback payload malloc = { s with
      connSet := s.connSet.netxLibReplyCallback payload malloc.isSome
      conn_set_g := malloc
      heap := s.heap ++ malloc.toList.map .acquire } ∧
    (s.connSet.netxLibReplyCallback payload malloc.isSome).conn_set_g.isSome = malloc.isSome := by
  obtain ⟨hlong, hbrief⟩ := h
  have hne : NETXCMD_GET_CONNTRACK_ALL_BRIEF ≠ NETXCMD_GET_CONNTRACK_COUNT := by decide
  constructor
  · rw [netxLibReplyCallback, if_neg (Nat.not_lt.2 hlong), if_neg (by rw [hbrief]; exact hne),
      if_pos hbrief]
  · rw [ConnSet.netxLibReplyCallback, if_neg (Nat.not_lt.2 hlong), if_pos hbrief]
    cases malloc <;> rfl

/-- What the command does to them is what it does in `ConnSet`. -/
theorem setConntrackActionBrief_connSet (f : FilterPtr) (action : UInt32) (ok : Bool) :
    (s.setConntrackActionBrief f action ok).connSet =
      s.connSet.setConntrackActionBrief action ok := by
  unfold Commands.setConntrackActionBrief ConnSet.setConntrackActionBrief
  cases hbuf : s.connSet.conn_set_g with
  | none => rfl
  | some buf =>
      cases hloop : ConnSet.setActions action s.connSet.num_conn_set_g.toNat 0 buf with
      | none => simp only [hloop, hbuf]
      | some buf' => cases ok <;> simp only [hloop] <;> rfl

/-- A step is one of `connInfo`, or leaves them. -/
theorem connInfo_of_step (h : machine.step s a = some s') :
    ∃ events, connInfo.Run s.connSet events s'.connSet := by
  obtain ⟨-, h⟩ := Option.ite_none_left_eq_some.1 h
  cases a with
  | reply payload malloc =>
      obtain ⟨-, h⟩ := Option.ite_none_right_eq_some.1 h
      cases h
      by_cases hbrief : (Act.reply payload malloc).Brief
      · rw [(reply_of_brief hbrief).1]
        exact ⟨[.reply payload malloc.isSome], .one rfl⟩
      · obtain ⟨num_conn_g, hreply⟩ := reply_of_not_brief (s := s) hbrief
        rw [hreply]
        exact ⟨[], .refl _⟩
  | command e ok =>
      cases h
      unfold cliCommand
      dsimp only
      split_ifs
      · exact ⟨[], .refl _⟩
      · exact ⟨[], .refl _⟩
      · exact ⟨[], .refl _⟩
      · exact ⟨[], .refl _⟩
      · exact ⟨[], .refl _⟩
      · rw [setConntrackActionBrief_connSet]
        exact ⟨[.setAction (msgAction e.msg) ok], .one rfl⟩
      · exact ⟨[], .refl _⟩

/-- **A run** has the globals of a run of `connInfo`. -/
theorem connInfo_of_run (h : machine.Run s acts s') :
    ∃ events, connInfo.Run s.connSet events s'.connSet := by
  obtain ⟨events, _, hr, rfl⟩ := h.simulate (R := fun s t => s.connSet = t)
    (fun s a s' t hR hs => by
      obtain ⟨events, hr⟩ := connInfo_of_step hs
      exact ⟨events, _, hR ▸ hr, rfl⟩) rfl
  exact ⟨events, hr⟩

/-! ### The buffer -/

/-- `conn_set_g` is the block of the buffer, and what is allocated besides has been lost. -/
structure Accounted (s : Commands) (gone : List Nat) : Prop where
  proper : Handles.Proper s.heap
  block : s.conn_set_g.isSome = s.connSet.conn_set_g.isSome
  owned : (Handles.owned s.heap).Perm (s.conn_set_g.toList ++ gone)

variable {gone : List Nat}

theorem Accounted.reply (h : s.Accounted gone) {malloc : Option Nat} :
    (s.netxLibReplyCallback payload malloc).Accounted
      (gone ++ (lost s (.reply payload malloc)).toList) := by
  by_cases hbrief : (Act.reply payload malloc).Brief
  · have hgone : lost s (.reply payload malloc) = s.conn_set_g := if_pos hbrief
    obtain ⟨hreply, hsome⟩ := reply_of_brief (s := s) hbrief
    have hswap : (Handles.owned s.heap).Perm (gone ++ s.conn_set_g.toList) :=
      h.owned.trans List.perm_append_comm
    rw [hgone, hreply]
    cases malloc with
    | none =>
        have hheap : s.heap ++ (none : Option Nat).toList.map .acquire = s.heap :=
          List.append_nil s.heap
        rw [hheap]
        exact ⟨h.proper, hsome.symm, hswap⟩
    | some p =>
        refine ⟨Handles.proper_acquire.2 h.proper, hsome.symm, ?_⟩
        change (Handles.owned (s.heap ++ [.acquire p])).Perm (p :: (gone ++ s.conn_set_g.toList))
        rw [Handles.owned_concat]
        exact hswap.cons p
  · obtain ⟨num_conn_g, hreply⟩ := reply_of_not_brief (s := s) hbrief
    rw [hreply, lost, if_neg hbrief, Option.toList_none, List.append_nil]
    exact ⟨h.proper, h.block, h.owned⟩

theorem Accounted.setConntrackActionBrief (h : s.Accounted gone) (f : FilterPtr) (action : UInt32)
    (ok : Bool) : (s.setConntrackActionBrief f action ok).Accounted gone := by
  unfold Commands.setConntrackActionBrief
  cases hbuf : s.connSet.conn_set_g with
  | none => exact h
  | some buf =>
      have hsome := h.block
      rw [hbuf] at hsome
      dsimp only
      cases hloop : ConnSet.setActions action s.connSet.num_conn_set_g.toNat 0 buf with
      | none => exact ⟨h.proper, by rw [hsome, hbuf], h.owned⟩
      | some buf' =>
          cases ok with
          | false => exact ⟨h.proper, hsome, h.owned⟩
          | true =>
              obtain ⟨p, hp⟩ := Option.isSome_iff_exists.1 hsome
              have howned := h.owned
              rw [hp] at howned
              have hheap : (s.call (.setConnInfoBrief f buf' s.connSet.conn_set_g_size
                  s.connSet.num_conn_set_g ⟨10, 10⟩)).heap ++ s.conn_set_g.toList.map .release =
                  s.heap ++ [.release p] := by
                rw [hp]
                rfl
              refine ⟨?_, rfl, ?_⟩
              · change Handles.Proper (_ ++ s.conn_set_g.toList.map .release)
                rw [hheap]
                exact Handles.proper_release.2
                  ⟨h.proper, howned.mem_iff.2 (List.mem_cons_self ..)⟩
              · change (Handles.owned (_ ++ s.conn_set_g.toList.map .release)).Perm gone
                rw [hheap, Handles.owned_concat, Handles.hold]
                have := howned.erase p
                rwa [Option.toList_some, List.singleton_append, List.erase_cons_head] at this

theorem Accounted.step (h : s.Accounted gone) (hs : machine.step s a = some s') :
    s'.Accounted (gone ++ (lost s a).toList) := by
  obtain ⟨-, hs⟩ := Option.ite_none_left_eq_some.1 hs
  cases a with
  | reply payload malloc =>
      obtain ⟨-, hs⟩ := Option.ite_none_right_eq_some.1 hs
      cases hs
      exact h.reply
  | command e ok =>
      cases hs
      have hlost : lost s (.command e ok) = none := if_neg id
      rw [hlost, Option.toList_none, List.append_nil]
      unfold cliCommand
      dsimp only
      split_ifs
      · exact ⟨h.proper, h.block, h.owned⟩
      · exact ⟨h.proper, h.block, h.owned⟩
      · exact ⟨h.proper, h.block, h.owned⟩
      · exact ⟨h.proper, h.block, h.owned⟩
      · exact ⟨h.proper, h.block, h.owned⟩
      · exact h.setConntrackActionBrief e.filter (msgAction e.msg) ok
      · exact h

end

/-- **What is asked of the library** is what the replies and the commands say, record by record: each
connection that is set is one of the last reply that had any, for whichever filter, with every byte
of its record but those of the action, and it is set by one command that succeeds. -/
theorem calls_as_told {acts : List Act} {s' : Commands} (h : machine.Run start acts s')
    (hw : ∀ a ∈ acts, a.Whole) :
    s'.connSet.outside = false ∧ s'.calls = Told.calls ⟨0, none⟩ acts := by
  have hknows : start.Knows ⟨0, none⟩ := ⟨rfl, rfl, fun _ => rfl, nofun⟩
  exact hknows.run h hw

/-- The reply with one connection. -/
def oneConnection : List UInt8 :=
  [4, 0, 0, 0, 1, 0, 0, 0, 178, 0, 0, 0] ++ .replicate 12 0 ++ .replicate 178 1

/-- The command that sets the action of the connections. -/
def dropThem : Execution :=
  ⟨1, 102 :: .replicate 127 0 ++ store32 2 ++ store32 NETX_CTL_SET_CONNTRACK_ACTION_BRIEF, 136⟩

theorem calls_as_told_dropThem : ∃ s', machine.Run start
    [.reply oneConnection (some 7), .command dropThem false, .command dropThem true] s' ∧
      s'.calls = Told.calls ⟨0, none⟩
        [.reply oneConnection (some 7), .command dropThem false, .command dropThem true] :=
  ⟨_, Machine.run_of_exec (by decide +kernel),
    (calls_as_told (Machine.run_of_exec (by decide +kernel)) (by decide +kernel)).2⟩

/-- **The buffers** of the connections.  None is freed twice, or without having been allocated.
What is allocated is the buffer that `conn_set_g` points to, and those that it pointed to when another
reply came: nothing leaks exactly if no such reply comes before the command for the last one has
succeeded. -/
theorem heap_exact {acts : List Act} {s' : Commands} (h : machine.Run start acts s') :
    Handles.Proper s'.heap ∧
      (Handles.owned s'.heap).Perm (s'.conn_set_g.toList ++ machine.collect lost start acts) ∧
      (Handles.owned s'.heap = s'.conn_set_g.toList ↔
        machine.Along (fun s a => a.Brief → s.conn_set_g = none) start acts) := by
  have hacc : s'.Accounted ([] ++ machine.collect lost start acts) :=
    h.invariant_collect (I := Accounted) (fun _ _ _ _ hI hs => hI.step hs)
      ⟨Handles.proper_nil, rfl, .refl _⟩
  obtain ⟨hproper, -, howned⟩ := hacc
  rw [List.nil_append] at howned
  refine ⟨hproper, howned, ?_⟩
  have hnone : ∀ s a, lost s a = none ↔ (a.Brief → s.conn_set_g = none) := fun s a => by
    rw [lost, ite_eq_right_iff]
  simp only [← hnone]
  rw [← h.collect_eq_nil_iff]
  constructor
  · intro heq
    have hlen := howned.length_eq
    rw [heq, List.length_append] at hlen
    exact List.eq_nil_of_length_eq_zero (by omega)
  · intro hnil
    rw [hnil, List.append_nil] at howned
    cases hp : s'.conn_set_g with
    | none =>
        rw [hp] at howned
        exact howned.eq_nil
    | some p =>
        rw [hp] at howned
        exact List.perm_singleton.1 howned

/-- Two replies, and the command for the second: the buffer of the first is lost. -/
theorem heap_exact_dropThem : ∃ s', machine.Run start
    [.reply oneConnection (some 7), .reply oneConnection (some 8), .command dropThem true] s' ∧
      Handles.owned s'.heap ≠ s'.conn_set_g.toList :=
  ⟨_, Machine.run_of_exec (by decide +kernel), fun h =>
    absurd ((heap_exact (Machine.run_of_exec (by decide +kernel))).2.2.1 h) (by decide +kernel)⟩

end Commands
end DistDpi

import Linux2Win.NodeSoundness

namespace Linux2Win.FileTimes

open Bytes Devices Ext4Types Reader Directory Listings Programs Vfs NodeTree TreeCalls TreeGrowth
open NodeSoundness

def ticks (ft : Filetime) : Int := ft.highDateTime.toNat * 2 ^ 32 + ft.lowDateTime.toNat

def filetimeOf (seconds : Int) : Int := 116444736000000000 + 10 ^ 7 * seconds

/-- The time that ext4 keeps: a signed number of 32 bits, and the two epoch bits of the
extra field, whose upper bits count nanoseconds. -/
def ext4Time (low extra : UInt32) : Int := low.toInt32.toInt + 2 ^ 32 * ((extra.toNat % 4 : Nat) : Int)

/-- The times that 32 unsigned bits can hold, from 1970 to 2106. -/
def Representable (seconds : Int) : Prop := 0 ≤ seconds ∧ seconds < 2 ^ 32

def iExtraIsize (inode : Ext4Inode) : UInt16 := inode.u16 128
def iMtimeExtra (inode : Ext4Inode) : UInt32 := inode.u32 136
def iAtimeExtra (inode : Ext4Inode) : UInt32 := inode.u32 140
def iCrtimeExtra (inode : Ext4Inode) : UInt32 := inode.u32 148

inductive TimeKind
  | creation
  | lastAccess
  | lastWrite

namespace TimeKind

def filetime (info : NodeInfo) : TimeKind → Filetime
  | creation => info.creationTime
  | lastAccess => info.lastAccessTime
  | lastWrite => info.lastWriteTime

def low (inode : Ext4Inode) : TimeKind → UInt32
  | creation => inode.iCrtime
  | lastAccess => inode.iAtime
  | lastWrite => inode.iMtime

def extra (inode : Ext4Inode) : TimeKind → UInt32
  | creation => iCrtimeExtra inode
  | lastAccess => iAtimeExtra inode
  | lastWrite => iMtimeExtra inode

def time (inode : Ext4Inode) (kind : TimeKind) : Int := ext4Time (kind.low inode) (kind.extra inode)

end TimeKind

section Arithmetic

theorem ticks_unixEpochToFiletime (unixTime : UInt32) :
    ticks (unixEpochToFiletime unixTime) = filetimeOf unixTime.toNat := by
  have htime := unixTime.toNat_lt
  have hval : (unixTime.toUInt64 * 10000000 + 116444736000000000).toNat =
      unixTime.toNat * 10000000 + 116444736000000000 := by
    rw [UInt64.toNat_add, UInt64.toNat_mul, UInt32.toNat_toUInt64]
    simp only [UInt64.reduceToNat]
    omega
  have hlow : ((unixTime.toUInt64 * 10000000 + 116444736000000000) &&& 0xFFFFFFFF).toUInt32.toNat =
      (unixTime.toNat * 10000000 + 116444736000000000) % 2 ^ 32 := by
    rw [UInt64.toNat_toUInt32, UInt64.toNat_and, hval, show (0xFFFFFFFF : UInt64).toNat = 2 ^ 32 - 1 from rfl,
      Nat.and_two_pow_sub_one_eq_mod, Nat.mod_mod]
  have hhigh : ((unixTime.toUInt64 * 10000000 + 116444736000000000) >>> 32).toUInt32.toNat =
      (unixTime.toNat * 10000000 + 116444736000000000) / 2 ^ 32 := by
    rw [UInt64.toNat_toUInt32, UInt64.toNat_shiftRight, hval, Nat.shiftRight_eq_div_pow,
      show (32 : UInt64).toNat % 64 = 32 from rfl]
    exact Nat.mod_eq_of_lt (by omega)
  simp only [ticks, unixEpochToFiletime, hlow, hhigh, filetimeOf]
  omega

theorem ext4Time_eq_iff (low extra : UInt32) :
    ext4Time low extra = low.toNat ↔ Representable (ext4Time low extra) := by
  have hlow := low.toNat_lt
  have hsigned : low.toInt32.toInt = if 2 * low.toNat < 2 ^ 32 then (low.toNat : Int)
      else (low.toNat : Int) - 2 ^ 32 := low.toBitVec.toInt_eq_toNat_cond
  have hepoch := Nat.mod_lt extra.toNat (show 4 > 0 by decide)
  simp only [ext4Time, Representable, hsigned]
  split <;> omega

theorem filetimeOf_inj {s s' : Int} : filetimeOf s = filetimeOf s' ↔ s = s' := by
  simp only [filetimeOf]
  omega

theorem filetimeOf_lt {s s' : Int} : filetimeOf s < filetimeOf s' ↔ s < s' := by
  simp only [filetimeOf]
  omega

end Arithmetic

section Nodes

variable {dev : Device Id} {rd : Ext4Reader} {fuel : Nat}

/-- The times of a node are those of its inode, each as 32 bits without a sign. -/
structure Timed (dev : Device Id) (rd : Ext4Reader) (info : NodeInfo) (inode : Ext4Inode) : Prop where
  read : readInode dev rd info.inodeNum = pure (some inode)
  filetime : ∀ kind : TimeKind, kind.filetime info = unixEpochToFiletime (kind.low inode)

theorem timed_of_stat (hsize : 128 < rd.inodeSize) {info : NodeInfo} {st : FileStat}
    (hst : statInode dev rd fuel info.inodeNum = pure (some st))
    (hcreation : info.creationTime = unixEpochToFiletime st.crtime)
    (haccess : info.lastAccessTime = unixEpochToFiletime st.atime)
    (hwrite : info.lastWriteTime = unixEpochToFiletime st.mtime) : ∃ inode, Timed dev rd info inode := by
  obtain ⟨inode, hinode, hstat⟩ := statInode_spec hst
  refine ⟨inode, hinode, fun kind => ?_⟩
  cases kind with
  | creation => rw [TimeKind.filetime, hcreation, hstat.crtime, if_pos hsize]; rfl
  | lastAccess => rw [TimeKind.filetime, haccess, hstat.atime]; rfl
  | lastWrite => rw [TimeKind.filetime, hwrite, hstat.mtime]; rfl

theorem timed_of_reached (hsize : 128 < rd.inodeSize) {info : NodeInfo}
    (h : Reached (loadable (ext4 dev rd fuel)) info) : ∃ inode, Timed dev rd info inode := by
  cases h with
  | root h =>
      obtain ⟨_, st, hst, rfl⟩ := rootNode_eq_some_iff.mp h
      exact timed_of_stat hsize (stat_of_loadable hst) rfl rfl rfl
  | kid _ h =>
      obtain ⟨_, _, e, st, _, _, hst, rfl⟩ := mem_kids h
      exact timed_of_stat hsize (stat_of_loadable hst) rfl rfl rfl

variable {info info' : NodeInfo} {inode inode' : Ext4Inode}

theorem Timed.ticks_eq (h : Timed dev rd info inode) (kind : TimeKind) :
    ticks (kind.filetime info) = filetimeOf (kind.low inode).toNat := by
  rw [h.filetime kind, ticks_unixEpochToFiletime]

theorem Timed.faithful_iff (h : Timed dev rd info inode) (kind : TimeKind) :
    ticks (kind.filetime info) = filetimeOf (kind.time inode) ↔ Representable (kind.time inode) := by
  rw [h.ticks_eq, filetimeOf_inj, eq_comm]
  exact ext4Time_eq_iff _ _

theorem Timed.order (h : Timed dev rd info inode) (h' : Timed dev rd info' inode') {kind kind' : TimeKind}
    (hkind : Representable (kind.time inode)) (hkind' : Representable (kind'.time inode')) :
    ticks (kind.filetime info) < ticks (kind'.filetime info') ↔ kind.time inode < kind'.time inode' := by
  rw [(h.faithful_iff kind).mpr hkind, (h'.faithful_iff kind').mpr hkind', filetimeOf_lt]

end Nodes

/-- Whatever the calls before, a node shows the time of its inode exactly when this lies
between 1970 and 2106, and times there keep their order. -/
theorem node_times (dev : Device Id) (rd : Ext4Reader) (fuel : Nat) (hsize : 128 < rd.inodeSize)
    (calls : List TreeCall) (t : VfsTree) (hrun : runCalls (ext4 dev rd fuel) calls Vfs.empty = pure t) :
    (∀ n ∈ t.nodes, ∃ inode, readInode dev rd n.info.inodeNum = pure (some inode) ∧
      ∀ kind : TimeKind, ticks (kind.filetime n.info) = filetimeOf (kind.low inode).toNat ∧
        (ticks (kind.filetime n.info) = filetimeOf (kind.time inode) ↔
          Representable (kind.time inode))) ∧
    ∀ n ∈ t.nodes, ∀ n' ∈ t.nodes, ∀ inode inode',
      readInode dev rd n.info.inodeNum = pure (some inode) →
      readInode dev rd n'.info.inodeNum = pure (some inode') → ∀ kind kind' : TimeKind,
        Representable (kind.time inode) → Representable (kind'.time inode') →
          (ticks (kind.filetime n.info) < ticks (kind'.filetime n'.info) ↔
            kind.time inode < kind'.time inode') := by
  have hinv := (keyed_of_run hrun).1
  have htimed : ∀ n ∈ t.nodes, ∃ inode, Timed dev rd n.info inode := by
    intro n hn
    obtain ⟨i, hi⟩ := List.mem_iff_getElem?.mp hn
    exact timed_of_reached hsize (hinv.reached i n hi)
  constructor
  · intro n hn
    obtain ⟨inode, h⟩ := htimed n hn
    exact ⟨inode, h.read, fun kind => ⟨h.ticks_eq kind, h.faithful_iff kind⟩⟩
  · intro n hn n' hn' inode inode' hread hread' kind kind' hkind hkind'
    obtain ⟨_, h⟩ := htimed n hn
    obtain ⟨_, h'⟩ := htimed n' hn'
    cases pure_injective (h.read.symm.trans hread)
    cases pure_injective (h'.read.symm.trans hread')
    exact h.order h' hkind hkind'

section Example

/-- A root directory with inodes of 256 bytes, and with the files a and b. The root was
written one second before 1970, a at the start of 1970, and b 2 ^ 32 seconds later. -/
def timesDisk : Disk :=
  .ofPieces 16384
    [(2056, le32Bytes 5), (5376, le16Bytes 0x41ED ++ [0, 0] ++ le32Bytes 1024),
      (5392, le32Bytes 0xFFFFFFFF), (5416, le32Bytes 12), (5504, le16Bytes 32),
      (7680, le16Bytes 0x8180), (7808, le16Bytes 32),
      (7936, le16Bytes 0x8180), (8064, le16Bytes 32), (8072, le32Bytes 1),
      (12288, le32Bytes 11 ++ le16Bytes 12 ++ [1, 1, 0x61, 0]),
      (12300, le32Bytes 12 ++ le16Bytes 1012 ++ [1, 1, 0x62, 0])]

def wideReader : Ext4Reader :=
  { plainReader 16 with
    inodeSize := 256
    geometry := fun _ => ⟨⟨0, by decide, by decide⟩, by decide, by decide⟩ }

def timesDevice : Device Id := timesDisk.device wholeDevice

end Example

/-- The root seems to be younger than the file a, and b seems to be as old as a. -/
theorem old_root_shown_young : ∃ t,
    runCalls (ext4 timesDevice wideReader 2) [.getRoot, .ensureChildrenLoaded 0] Vfs.empty = pure t ∧
    ∃ root ∈ t.nodes, ∃ a ∈ t.nodes, ∃ b ∈ t.nodes, ∃ inodeRoot inodeA inodeB,
      readInode timesDevice wideReader root.info.inodeNum = pure (some inodeRoot) ∧
      readInode timesDevice wideReader a.info.inodeNum = pure (some inodeA) ∧
      readInode timesDevice wideReader b.info.inodeNum = pure (some inodeB) ∧
      24 ≤ iExtraIsize inodeRoot ∧ 24 ≤ iExtraIsize inodeA ∧ 24 ≤ iExtraIsize inodeB ∧
      TimeKind.lastWrite.time inodeRoot < TimeKind.lastWrite.time inodeA ∧
      TimeKind.lastWrite.time inodeA < TimeKind.lastWrite.time inodeB ∧
      ticks a.info.lastWriteTime < ticks root.info.lastWriteTime ∧
      ticks a.info.lastWriteTime = ticks b.info.lastWriteTime := by
  have hrun : (result (runCalls (ext4 timesDevice wideReader 2) [.getRoot, .ensureChildrenLoaded 0]
      Vfs.empty)).map (fun t => t.nodes.map fun n => (n.info.inodeNum, n.info.lastWriteTime)) =
      some [(2, unixEpochToFiletime 0xFFFFFFFF), (11, unixEpochToFiletime 0),
        (12, unixEpochToFiletime 0)] := by
    decide +kernel
  have hread (i : UInt32) (x : UInt16 × UInt32 × UInt32)
      (h : (result (readInode timesDevice wideReader i)).join.map
        (fun inode => (iExtraIsize inode, inode.iMtime, iMtimeExtra inode)) = some x) :
      ∃ inode, readInode timesDevice wideReader i = pure (some inode) ∧
        iExtraIsize inode = x.1 ∧ TimeKind.lastWrite.time inode = ext4Time x.2.1 x.2.2 := by
    obtain ⟨inode, hinode, rfl⟩ := Option.map_eq_some_iff.mp h
    exact ⟨inode, result_eq_some.mp (Option.join_eq_some_iff.mp hinode), rfl, rfl⟩
  obtain ⟨inodeRoot, hroot, hrootSize, hrootTime⟩ := hread 2 (32, 0xFFFFFFFF, 0) (by decide +kernel)
  obtain ⟨inodeA, ha, haSize, haTime⟩ := hread 11 (32, 0, 0) (by decide +kernel)
  obtain ⟨inodeB, hb, hbSize, hbTime⟩ := hread 12 (32, 0, 1) (by decide +kernel)
  obtain ⟨t, ht, hnodes⟩ := Option.map_eq_some_iff.mp hrun
  obtain ⟨root, files, hfiles, hrootNode, hnodes⟩ := List.map_eq_cons_iff.mp hnodes
  obtain ⟨a, files', rfl, haNode, hnodes⟩ := List.map_eq_cons_iff.mp hnodes
  obtain ⟨b, rest, rfl, hbNode, -⟩ := List.map_eq_cons_iff.mp hnodes
  rw [Prod.mk.injEq] at hrootNode haNode hbNode
  refine ⟨t, result_eq_some.mp ht, root, by simp [hfiles], a, by simp [hfiles], b, by simp [hfiles],
    inodeRoot, inodeA, inodeB, ?_⟩
  rw [hrootNode.1, haNode.1, hbNode.1, hrootNode.2, haNode.2, hbNode.2, hrootSize, haSize, hbSize,
    hrootTime, haTime, hbTime]
  exact ⟨hroot, ha, hb, by decide, by decide, by decide, by decide, by decide, by decide, rfl⟩

theorem node_times_wide : 128 < wideReader.inodeSize ∧ ∃ t,
    runCalls (ext4 timesDevice wideReader 2) [.getRoot, .ensureChildrenLoaded 0] Vfs.empty = pure t ∧
    ∀ n ∈ t.nodes, ∃ inode, readInode timesDevice wideReader n.info.inodeNum = pure (some inode) ∧
      ∀ kind : TimeKind, ticks (kind.filetime n.info) = filetimeOf (kind.low inode).toNat ∧
        (ticks (kind.filetime n.info) = filetimeOf (kind.time inode) ↔
          Representable (kind.time inode)) := by
  have hsize : 128 < wideReader.inodeSize := by decide
  have hruns : (result (runCalls (ext4 timesDevice wideReader 2) [.getRoot, .ensureChildrenLoaded 0]
      Vfs.empty)).isSome = true := by
    decide +kernel
  obtain ⟨t, ht⟩ := Option.isSome_iff_exists.mp hruns
  have hrun := result_eq_some.mp ht
  exact ⟨hsize, t, hrun, (node_times timesDevice wideReader 2 hsize _ t hrun).1⟩

end Linux2Win.FileTimes

import Linux2Win.Directory
import Linux2Win.Enumerator
import Linux2Win.Programs
import Linux2Win.Traces
import Mathlib.Algebra.BigOperators.Group.Finset.Basic

namespace Linux2Win.Exports

open Bytes Devices Ext4Types Reader FileData Directory Partitions Enumerator Programs Traces

/-- What a line of output says; the size stands for the text that `format_bytes` makes of it. -/
inductive Line
  | exported (src dst : Name) (size : UInt64)
  | cannotOpen (dst : Name)
  deriving DecidableEq, Repr

/-- What the command leaves: the destination that it has opened, the bytes written to
it, the offset that its loop has come to, and the lines that it has printed. -/
structure Export where
  destination : Option Name
  written : List Byte
  offset : UInt64
  lines : List Line
  deriving DecidableEq, Repr

def untouched : Export := ⟨none, [], 0, []⟩

/-- What the command asks of a mounted reader. -/
structure FileSource (m : Type → Type) where
  statPath : Name → m (Option FileStat)
  readFileByPath : Name → UInt64 → Option (List Byte) → UInt64 → m ReadResult

/-- What the command asks of the destination's filesystem: whether a path is a directory,
the path of a source's file name in it, and whether the path can be opened for writing. -/
structure Destinations where
  isDirectory : Name → Bool
  inDirectory : Name → Name → Name
  opens : Name → Bool

def dstPath (files : Destinations) (src dst : Name) : Name :=
  if files.isDirectory dst then files.inDirectory dst src else dst

section Operations

variable {m : Type → Type} [Monad m]

def ext4Source (dev : Device m) (rd : Ext4Reader) (fuel : Nat) : FileSource (ExceptT Fault m) :=
  ⟨Directory.statPath dev rd fuel, Directory.readFileByPath dev rd fuel⟩

/-- The result of `open_read_only` is not looked at: `mount` fails on a closed device. -/
def openPartition (createFile : Bool → Bool) (raw : BlockDevice → Device m) (fuel : Nat)
    (part : PartitionInfo) : ExceptT Fault m (Option (FileSource (ExceptT Fault m))) := do
  match openReadOnly createFile part.startingOffset part.totalLength with
  | none => return none
  | some w =>
    let (ok, rd) ← Reader.mount (raw w) w.isOpen Reader.initial
    return if ok then some (ext4Source (raw w) rd fuel) else none

/-- The copy loop. A failed read and a read of no bytes leave it alike. -/
def exportLoop (source : FileSource (ExceptT Fault m)) (src : Name) (size : UInt64) :
    Nat → UInt64 → List Byte → List Byte → ExceptT Fault m (List Byte × UInt64)
  | 0, _, _, _ => throw .outOfFuel
  | fuel + 1, offset, buf, out => do
      if ¬offset < size then return (out, offset)
      let toRead := min 65536 (size - offset)
      let r ← source.readFileByPath src offset (some buf) toRead
      if !r.ok || r.bytesRead == 0 then return (out, offset)
      if r.buffer.length < r.bytesRead.toNat then throw .outOfBounds
      exportLoop source src size fuel (offset + r.bytesRead) r.buffer
        (out ++ r.buffer.take r.bytesRead.toNat)

/-- The command from the mounted reader on. -/
def exportFile (source : FileSource (ExceptT Fault m)) (files : Destinations) (fuel : Nat)
    (src dst : Name) : ExceptT Fault m Export := do
  match ← source.statPath src with
  | none => return untouched
  | some st =>
    if !st.isRegular then return untouched
    let path := dstPath files src dst
    if !files.opens path then return { untouched with lines := [.cannotOpen path] }
    let (out, offset) ← exportLoop source src st.size fuel 0 (List.replicate 65536 0) []
    return ⟨some path, out, offset, [.exported src path st.size]⟩

/-- Only the first partition that matches is looked at. -/
def cmdExport (inspect : UInt32 → Option DiskInfo)
    (mount : PartitionInfo → ExceptT Fault m (Option (FileSource (ExceptT Fault m))))
    (files : Destinations) (fuel : Nat) (diskIdx partIdx : UInt32) (src dst : Name) :
    ExceptT Fault m Export := do
  match (inspect diskIdx).bind fun disk => disk.partitions.find? (cmdCatMatches partIdx) with
  | none => return untouched
  | some part =>
    match ← mount part with
    | none => return untouched
    | some source => exportFile source files fuel src dst

end Operations

/-- The success line is printed for a complete copy only, and not after an early end. -/
structure Honest (content : List Byte) (e : Export) : Prop where
  complete : ∀ src dst size, Line.exported src dst size ∈ e.lines → e.written = content
  stopped : e.offset.toNat < content.length → ∀ src dst size, Line.exported src dst size ∉ e.lines

section Patterns

/-- What a call does under an outcome: it fails, or it delivers up to so many bytes of
the file from the offset on. -/
def serve (content : List Byte) (outcome : Option UInt64) (offset : UInt64) (buffer : List Byte)
    (size : UInt64) : ReadResult :=
  match outcome with
  | none => ⟨false, buffer, 0⟩
  | some count =>
    let bytes := (content.drop offset.toNat).take (min count size).toNat
    ⟨true, overlay bytes buffer, UInt64.ofNat bytes.length⟩

def pattern (st : FileStat) (content : List Byte) (outcomes : Nat → Option UInt64) :
    FileSource (ExceptT Fault (StateM Nat)) where
  statPath _ := pure (some st)
  readFileByPath _ offset buffer size := ExceptT.mk do
    let call ← getModify (· + 1)
    return .ok (serve content (outcomes call) offset (buffer.getD []) size)

def given (outcome : Option UInt64) : Nat := min (outcome.getD 0).toNat 65536

/-- The first calls all succeed and give bytes, until they have given the whole size. -/
def Delivers (outcomes : Nat → Option UInt64) (size : Nat) : Prop :=
  ∃ n, (∀ i < n, 0 < given (outcomes i)) ∧ size ≤ ∑ i ∈ Finset.range n, given (outcomes i)

theorem delivers_zero (outcomes : Nat → Option UInt64) : Delivers outcomes 0 :=
  ⟨0, fun _ h => absurd h (Nat.not_lt_zero _), Nat.zero_le _⟩

theorem delivers_succ {outcomes : Nat → Option UInt64} {size : Nat} (hpos : 0 < size) :
    Delivers outcomes size ↔ 0 < given (outcomes 0) ∧
      Delivers (fun i => outcomes (i + 1)) (size - given (outcomes 0)) := by
  constructor
  · rintro ⟨n, hgives, hsum⟩
    cases n with
    | zero =>
        rw [Finset.range_zero, Finset.sum_empty] at hsum
        omega
    | succ n =>
        rw [Finset.sum_range_succ'] at hsum
        exact ⟨hgives 0 n.succ_pos, n, fun i hi => hgives (i + 1) (Nat.succ_lt_succ hi),
          Nat.sub_le_of_le_add hsum⟩
  · rintro ⟨hfirst, n, hgives, hsum⟩
    refine ⟨n + 1, fun i hi => ?_, ?_⟩
    · cases i with
      | zero => exact hfirst
      | succ i => exact hgives i (Nat.lt_of_succ_lt_succ hi)
    · rw [Finset.sum_range_succ']
      exact Nat.le_add_of_sub_le hsum

end Patterns

section Loop

variable {st : FileStat} {content : List Byte} {outcomes : Nat → Option UInt64} {src : Name}
  {size offset : UInt64}

theorem chunk_toNat (hlt : offset.toNat < size.toNat) :
    (min 65536 (size - offset)).toNat = min 65536 (size.toNat - offset.toNat) := by
  rw [min_toNat UInt64.toNat UInt64.le_iff_toNat_le, UInt64.toNat_sub_of_le _ _ (UInt64.le_iff_toNat_le.mpr hlt.le)]
  rfl

theorem serve_chunk (hlength : content.length = size.toNat) (hlt : offset.toNat < size.toNat)
    {buf : List Byte} (hbuf : buf.length = 65536) (outcome : Option UInt64) :
    ∃ r, r = serve content outcome offset buf (min 65536 (size - offset)) ∧
      ((!r.ok || r.bytesRead == 0) = true ↔ given outcome = 0) ∧
      r.buffer.length = 65536 ∧
      (0 < given outcome → r.bytesRead.toNat = min (given outcome) (size.toNat - offset.toNat) ∧
        r.buffer.take r.bytesRead.toNat = (content.drop offset.toNat).take r.bytesRead.toNat) := by
  have hchunk := chunk_toNat hlt
  refine ⟨_, rfl, ?_⟩
  cases outcome with
  | none => exact ⟨iff_of_true rfl rfl, hbuf, fun h => absurd h (Nat.lt_irrefl 0)⟩
  | some count =>
      obtain ⟨n, hn⟩ : ∃ n, n = (min count (min 65536 (size - offset))).toNat := ⟨_, rfl⟩
      have hcount : ((content.drop offset.toNat).take n).length =
          min (given (some count)) (size.toNat - offset.toNat) := by
        rw [List.length_take, List.length_drop, hn, min_toNat UInt64.toNat UInt64.le_iff_toNat_le, hchunk, hlength, given,
          Option.getD_some]
        omega
      have hread : (UInt64.ofNat ((content.drop offset.toNat).take n).length).toNat =
          min (given (some count)) (size.toNat - offset.toNat) := by
        have := size.toNat_lt
        rw [hcount, UInt64.toNat_ofNat', Nat.mod_eq_of_lt (by omega)]
      have hle : given (some count) ≤ 65536 := Nat.min_le_right _ _
      simp only [serve, ← hn]
      refine ⟨?_, ?_, fun _ => ⟨hread, ?_⟩⟩
      · rw [Bool.not_true, Bool.false_or, beq_iff_eq, ← UInt64.toNat_inj, hread, UInt64.toNat_zero]
        omega
      · rw [overlay, List.length_append, List.length_drop, hbuf]
        omega
      · rw [hread, overlay, ← hcount, List.take_append_length, List.length_take, ← List.take_eq_take_min]

variable (st content outcomes src) in
theorem exportLoop_turn (hlength : content.length = size.toNat) (hlt : offset.toNat < size.toNat)
    {buf : List Byte} (hbuf : buf.length = 65536) (fuel call : Nat) (out : List Byte) :
    ∃ offset' : UInt64, ∃ buf' : List Byte, buf'.length = 65536 ∧
      (0 < given (outcomes call) → offset'.toNat =
        offset.toNat + min (given (outcomes call)) (size.toNat - offset.toNat)) ∧
      exec (exportLoop (pattern st content outcomes) src size (fuel + 1) offset buf out) call =
        if given (outcomes call) = 0 then (.ok (out, offset), call + 1)
        else exec (exportLoop (pattern st content outcomes) src size fuel offset' buf'
          (out ++ (content.drop offset.toNat).take (offset'.toNat - offset.toNat))) (call + 1) := by
  obtain ⟨r, hr, hstops, hbuffer, hgives⟩ := serve_chunk hlength hlt hbuf (outcomes call)
  have hread : exec ((pattern st content outcomes).readFileByPath src offset (some buf)
      (min 65536 (size - offset))) call = (.ok r, call + 1) := by rw [hr]; rfl
  refine ⟨offset + r.bytesRead, r.buffer, hbuffer, fun hpos => ?_, ?_⟩
  · obtain ⟨hcount, _⟩ := hgives hpos
    have := size.toNat_lt
    rw [UInt64.toNat_add, hcount, Nat.mod_eq_of_lt (by omega)]
  · rw [exportLoop, if_neg (not_not.mpr (UInt64.lt_iff_toNat_lt.mpr hlt))]
    dsimp only
    rw [exec_bind, hread]
    dsimp only
    by_cases hzero : given (outcomes call) = 0
    · rw [if_pos (hstops.mpr hzero), if_pos hzero]
      rfl
    · obtain ⟨hcount, htake⟩ := hgives (Nat.pos_of_ne_zero hzero)
      have hfits : ¬r.buffer.length < r.bytesRead.toNat := by
        have : given (outcomes call) ≤ 65536 := Nat.min_le_right _ _
        omega
      rw [if_neg (mt hstops.mp hzero), if_neg hzero, if_neg hfits]
      have := size.toNat_lt
      rw [htake, UInt64.toNat_add, hcount, Nat.mod_eq_of_lt (by omega), Nat.add_sub_cancel_left]

variable (st outcomes src offset) in
theorem exportLoop_run (call : Nat) (hlength : content.length = size.toNat) {fuel : Nat} {buf : List Byte}
    (hbuf : buf.length = 65536) (hle : offset.toNat ≤ size.toNat)
    (hfuel : size.toNat - offset.toNat < fuel) :
    ∃ offset' : UInt64, ∃ calls,
      exec (exportLoop (pattern st content outcomes) src size fuel offset buf
        (content.take offset.toNat)) call = (.ok (content.take offset'.toNat, offset'), calls) ∧
      offset'.toNat ≤ size.toNat ∧
      (offset'.toNat = size.toNat ↔
        Delivers (fun i => outcomes (call + i)) (size.toNat - offset.toNat)) := by
  induction fuel generalizing offset call buf with
  | zero => exact absurd hfuel (Nat.not_lt_zero _)
  | succ fuel ih =>
      rcases hle.lt_or_eq with hlt | heq
      · obtain ⟨next, buf', hbuf', hnext, hturn⟩ :=
          exportLoop_turn st content outcomes src hlength hlt hbuf fuel call (content.take offset.toNat)
        rw [hturn, delivers_succ (Nat.sub_pos_of_lt hlt)]
        by_cases hzero : given (outcomes call) = 0
        · rw [if_pos hzero]
          refine ⟨offset, call + 1, rfl, hle, iff_of_false hlt.ne fun h => ?_⟩
          exact absurd hzero h.1.ne'
        · have hpos := Nat.pos_of_ne_zero hzero
          have hmoved := hnext hpos
          rw [if_neg hzero, ← List.take_add, Nat.add_sub_cancel' (by omega)]
          obtain ⟨last, calls, hrun, hlast, hend⟩ := ih next (call + 1) hbuf'
            (by omega) (by omega)
          have hshift : (fun i => outcomes (call + 1 + i)) = fun i => outcomes (call + (i + 1)) := by
            funext i
            rw [Nat.add_assoc, Nat.add_comm 1 i]
          have hleft : size.toNat - next.toNat =
              size.toNat - offset.toNat - given (outcomes call) := by omega
          rw [hshift, hleft] at hend
          exact ⟨last, calls, hrun, hlast, hend.trans (and_iff_right hpos).symm⟩
      · have hdone : ¬offset < size := by rw [UInt64.lt_iff_toNat_lt]; exact heq.not_lt
        refine ⟨offset, call, by rw [exportLoop, if_pos hdone]; rfl, hle, iff_of_true heq ?_⟩
        rw [heq, Nat.sub_self]
        exact delivers_zero _

end Loop

def Reaches (inspect : UInt32 → Option DiskInfo) (files : Destinations) (diskIdx partIdx : UInt32)
    (src dst : Name) : Prop :=
  (∃ disk, inspect diskIdx = some disk ∧ ∃ part ∈ disk.partitions, cmdCatMatches partIdx part = true) ∧
    files.opens (dstPath files src dst) = true

variable {st : FileStat} {content : List Byte}

theorem honest_unreported {e : Export} (h : ∀ src dst size, Line.exported src dst size ∉ e.lines) :
    Honest content e :=
  ⟨fun src dst size hmem => absurd hmem (h src dst size), fun _ => h⟩

theorem exportFile_regular {m : Type → Type} [Monad m] [LawfulMonad m]
    {source : FileSource (ExceptT Fault m)} {src : Name} (hstat : source.statPath src = pure (some st))
    (hregular : st.isRegular = true) (files : Destinations) (fuel : Nat) (dst : Name) :
    exportFile source files fuel src dst =
      if files.opens (dstPath files src dst) then
        exportLoop source src st.size fuel 0 (List.replicate 65536 0) [] >>= fun r =>
          pure ⟨some (dstPath files src dst), r.1, r.2, [.exported src (dstPath files src dst) st.size]⟩
      else pure { untouched with lines := [.cannotOpen (dstPath files src dst)] } := by
  rw [exportFile, hstat, pure_bind]
  simp only [hregular, Bool.not_true, Bool.false_eq_true, if_false]
  cases files.opens (dstPath files src dst) <;> rfl

theorem exportFile_honest (hregular : st.isRegular = true) (hlength : content.length = st.size.toNat)
    (outcomes : Nat → Option UInt64) (files : Destinations) {fuel : Nat} (hfuel : st.size.toNat < fuel)
    (src dst : Name) (hopens : files.opens (dstPath files src dst) = true) (call : Nat) :
    ∃ e calls, exec (exportFile (pattern st content outcomes) files fuel src dst) call =
        (.ok e, calls) ∧
      (Honest content e ↔ Delivers (fun i => outcomes (call + i)) content.length) := by
  have hbuf : (List.replicate 65536 (0 : Byte)).length = 65536 := List.length_replicate
  obtain ⟨offset, calls, hrun, hle, hend⟩ :=
    exportLoop_run st outcomes src 0 call hlength hbuf (Nat.zero_le _) hfuel
  refine ⟨⟨some (dstPath files src dst), content.take offset.toNat, offset,
    [.exported src (dstPath files src dst) st.size]⟩, calls, ?_, ?_⟩
  · rw [UInt64.toNat_zero, List.take_zero] at hrun
    rw [exportFile_regular rfl hregular, if_pos hopens, exec_bind, hrun]
    rfl
  · rw [hlength]
    refine Iff.trans ⟨fun h => ?_, fun h => ⟨fun _ _ _ _ => ?_, fun hlt => ?_⟩⟩ hend
    · by_contra hne
      exact h.stopped (hlength ▸ Nat.lt_of_le_of_ne hle hne) _ _ _ List.mem_cons_self
    · dsimp only
      rw [h, ← hlength, List.take_length]
    · dsimp only at hlt
      omega

/-- The report of an export can be trusted exactly when every call of the copy gives
bytes until the whole size is given: the command prints the same line after a copy that
has stopped early. -/
theorem cmdExport_honest_iff (st : FileStat) (content : List Byte) (hregular : st.isRegular = true)
    (hlength : content.length = st.size.toNat) (outcomes : Nat → Option UInt64)
    (inspect : UInt32 → Option DiskInfo) (files : Destinations) (fuel : Nat)
    (hfuel : st.size.toNat < fuel) (diskIdx partIdx : UInt32) (src dst : Name) :
    ∃ e calls, exec (cmdExport inspect (fun _ => pure (some (pattern st content outcomes))) files fuel
        diskIdx partIdx src dst) 0 = (.ok e, calls) ∧
      (Honest content e ↔
        (Reaches inspect files diskIdx partIdx src dst → Delivers outcomes content.length)) := by
  by_cases hpart : ∃ disk, inspect diskIdx = some disk ∧
      ∃ part ∈ disk.partitions, cmdCatMatches partIdx part = true
  · obtain ⟨disk, hdisk, part, hmem, hmatch⟩ := hpart
    obtain ⟨found, hfound⟩ : ∃ found, disk.partitions.find? (cmdCatMatches partIdx) = some found :=
      Option.isSome_iff_exists.mp (List.find?_isSome.mpr ⟨part, hmem, hmatch⟩)
    have hrun : cmdExport inspect (fun _ => pure (some (pattern st content outcomes))) files fuel
        diskIdx partIdx src dst = exportFile (pattern st content outcomes) files fuel src dst := by
      rw [cmdExport, hdisk, Option.bind_some, hfound]
      rfl
    rw [hrun]
    by_cases hopens : files.opens (dstPath files src dst) = true
    · obtain ⟨e, calls, hexec, hhonest⟩ := exportFile_honest hregular hlength outcomes files hfuel src
        dst hopens 0
      refine ⟨e, calls, hexec, hhonest.trans ?_⟩
      simp only [Nat.zero_add]
      exact ⟨fun h _ => h, fun h => h ⟨⟨disk, hdisk, part, hmem, hmatch⟩, hopens⟩⟩
    · refine ⟨{ untouched with lines := [.cannotOpen (dstPath files src dst)] }, 0, ?_, ?_⟩
      · rw [exportFile_regular rfl hregular, if_neg hopens]
        rfl
      · exact iff_of_true (honest_unreported (by simp)) fun h => absurd h.2 hopens
  · refine ⟨untouched, 0, ?_, iff_of_true (honest_unreported (by simp [untouched])) fun h =>
      absurd h.1 hpart⟩
    have hnone : ((inspect diskIdx).bind fun disk => disk.partitions.find? (cmdCatMatches partIdx)) =
        none := by
      cases hdisk : inspect diskIdx with
      | none => rfl
      | some disk =>
          rw [Option.bind_some, List.find?_eq_none]
          exact fun part hmem hmatch => hpart ⟨disk, hdisk, part, hmem, hmatch⟩
    rw [cmdExport, hnone]
    rfl


def linuxDisk : DiskInfo :=
  ⟨0, 33554432, 512, false, [layoutPartition (fun _ => []) 0 ⟨.mbr 0x83 false, 1048576, 16777216, 1⟩]⟩

def anyFile : Destinations := ⟨fun _ => false, fun dir _ => dir, fun _ => true⟩

def shortStat : FileStat :=
  ⟨11, 3, 0x8180, 0, 0, 0, 0, 0, 0, false, true, false, []⟩

/-- The calls give two bytes and then one. -/
theorem cmdExport_honest_short :
    ∃ e calls, exec (cmdExport (fun _ => some linuxDisk)
        (fun _ => pure (some (pattern shortStat [0x61, 0x62, 0x63] fun _ => some 2))) anyFile 4 0 1
        [0x66] [0x67]) 0 = (.ok e, calls) ∧
      (Honest [0x61, 0x62, 0x63] e ↔
        (Reaches (fun _ => some linuxDisk) anyFile 0 1 [0x66] [0x67] → Delivers (fun _ => some 2) 3)) :=
  cmdExport_honest_iff shortStat [0x61, 0x62, 0x63] rfl rfl _ _ _ 4 (by decide) 0 1 [0x66] [0x67]

def brokenDisk : Disk :=
  { Disk.ofPieces 16384
      [(2056, le32Bytes 5), (5248, le16Bytes 0x41ED ++ [0, 0] ++ le32Bytes 1024), (5288, le32Bytes 8),
        (6400, le16Bytes 0x8180 ++ [0, 0] ++ le32Bytes 1024), (6440, le32Bytes 9),
        (8192, le32Bytes 11 ++ le16Bytes 1024 ++ [1, 1, 0x66])] with
    fails := fun position _ => position == 9216 }

/-- Nothing is written, and the success of the export is printed with the full size. -/
theorem broken_file_exported :
    cmdExport (fun _ => some linuxDisk) (fun _ => pure (some
        (ext4Source (brokenDisk.device wholeDevice) (plainReader 16) 2))) anyFile 1 0 1 [0x66] [0x67] =
      pure ⟨some [0x67], [], 0, [.exported [0x66] [0x67] 1024]⟩ ∧
    ∀ content : List Byte, content.length = 1024 →
      ¬Honest content ⟨some [0x67], [], 0, [.exported [0x66] [0x67] 1024]⟩ := by
  refine ⟨result_eq_some.mp (by decide +kernel), fun content hlength h => ?_⟩
  rw [← h.complete _ _ _ List.mem_cons_self] at hlength
  cases hlength

end Linux2Win.Exports

import Linux2Win.Listings
import Linux2Win.PathNames

namespace Linux2Win.ListedPaths

open Bytes Devices Reader Directory Programs PathNames Listings

section Paths

theorem pathParts_entry (path : Name) {name : Name} (h : PlainName name) :
    pathParts (path ++ [slash] ++ name) = pathParts path ++ [name] := by
  rw [pathParts_eq, pathParts_eq, List.append_assoc, List.singleton_append,
    components_append_cons path name rfl, components_plain h]

theorem isRootPath_parts {path : Name} (h : isRootPath path = true) (hdot : path ≠ [dot]) :
    pathParts path = [] := by
  simp only [isRootPath, Bool.or_eq_true, List.isEmpty_iff, beq_iff_eq] at h
  rcases h with ((rfl | rfl) | rfl) | h
  · rfl
  · rfl
  · rfl
  · exact absurd h hdot

theorem not_isRootPath {path name : Name} (hne : name ≠ []) :
    isRootPath (path ++ [slash] ++ name) = false := by
  have hlen : 2 ≤ (path ++ [slash] ++ name).length := by
    have := List.length_pos_of_ne_nil hne
    simp only [List.length_append, List.length_cons, List.length_nil]
    omega
  rw [Bool.eq_false_iff]
  intro h
  simp only [isRootPath, Bool.or_eq_true, List.isEmpty_iff, beq_iff_eq] at h
  rcases h with ((h | h) | h) | h
  all_goals
    rw [h] at hlen
    simp at hlen

end Paths

section Lookups

variable {dev : Device Id} {rd : Ext4Reader} {fuel : Nat} {path : Name} {d : UInt32}

theorem lookupParts_then {m : Type → Type} [Monad m] [LawfulMonad m]
    (list : UInt32 → m (Option (List DirEntryInfo))) (d : UInt32) (names parts : List Name) :
    lookupParts list d (names ++ parts) = (lookupParts list d names >>= fun r =>
      r.elim (pure none) fun i => lookupParts list i parts) := by
  induction names generalizing d with
  | nil =>
      rw [List.nil_append, lookupParts, pure_bind]
      rfl
  | cons name names ih =>
      rw [List.cons_append, lookupParts, lookupParts, bind_assoc]
      refine congrArg _ (funext fun found => ?_)
      cases found with
      | none => rw [pure_bind]; rfl
      | some entries =>
          dsimp only
          cases entries.find? (·.name == name) with
          | none => rw [pure_bind]; rfl
          | some e => exact ih e.inode

/-- A path other than the dot is looked up by its parts, also where it stands for the root. -/
theorem lookupPath_parts (hm : rd.mounted = true) (hdot : path ≠ [dot]) :
    lookupPath dev rd fuel path = lookupParts (listDirectory dev rd fuel) 2 (pathParts path) := by
  rw [lookupPath, hm]
  cases hroot : isRootPath path with
  | false => rfl
  | true =>
      rw [isRootPath_parts hroot hdot]
      rfl

theorem mounted_of_lookup (h : lookupPath dev rd fuel path = pure (some d)) : rd.mounted = true := by
  rw [lookupPath] at h
  split at h
  · cases pure_injective h
  · rename_i hm
    simpa using hm

theorem lookupPath_entry (hdot : path ≠ [dot]) (h : lookupPath dev rd fuel path = pure (some d))
    {name : Name} (hname : PlainName name) : lookupPath dev rd fuel (path ++ [slash] ++ name) =
      lookupParts (listDirectory dev rd fuel) d [name] := by
  have hm := mounted_of_lookup h
  rw [lookupPath_parts hm hdot] at h
  rw [lookupPath, hm, not_isRootPath hname.1, pathParts_entry path hname]
  change lookupParts _ 2 _ = _
  rw [lookupParts_then, h, pure_bind]
  rfl

theorem listDirectoryPath_some {entries : List DirEntryInfo}
    (h : listDirectoryPath dev rd fuel path = pure (some entries)) : ∃ d,
      lookupPath dev rd fuel path = pure (some d) ∧ listDirectory dev rd fuel d = pure (some entries) := by
  rw [listDirectoryPath] at h
  obtain ⟨found, hfound, h⟩ := bind_eq_pure.mp h
  cases found with
  | none => cases pure_injective h
  | some d => exact ⟨d, hfound, h⟩

theorem find_only {entries : List DirEntryInfo} {e : DirEntryInfo} (he : e ∈ entries)
    (hunique : ∀ e' ∈ entries, e'.name = e.name → e' = e) :
    entries.find? (·.name == e.name) = some e := by
  cases hfind : entries.find? (·.name == e.name) with
  | none => exact absurd (beq_self_eq_true _) (List.find?_eq_none.mp hfind e he)
  | some e' =>
      rw [hunique e' (List.mem_of_find?_eq_some hfind) (by simpa using List.find?_some hfind)]

end Lookups

/-- Every entry of a listed directory whose name holds no separator is found by its
path, however the path of the directory is spelled, the lone dot apart. -/
theorem listed_entry_found (disk : Disk) (w : BlockDevice) (rd : Ext4Reader) (fuel : Nat) (path : Name)
    (entries : List DirEntryInfo) (e : DirEntryInfo) (hdot : path ≠ [dot])
    (hlist : listDirectoryPath (disk.device w) rd fuel path = pure (some entries)) (he : e ∈ entries)
    (hslash : slash ∉ e.name) (hbackslash : backslash ∉ e.name)
    (hunique : ∀ e' ∈ entries, e'.name = e.name → e' = e) :
    lookupPath (disk.device w) rd fuel (path ++ [slash] ++ e.name) = pure (some e.inode) := by
  obtain ⟨d, hlookup, hlist⟩ := listDirectoryPath_some hlist
  have hplain :=
    plainName_of_separators ((listDirectory_spec hlist).2 e he).1 hslash hbackslash
  rw [lookupPath_entry hdot hlookup hplain, lookupParts, hlist, pure_bind]
  dsimp only
  rw [find_only he hunique]
  rfl

/-- A root directory with the directory a, which has an empty file b (inode 13), and
beside it the empty file `a\b` (inode 12). -/
def separatorDisk : Disk :=
  .ofPieces 16384
    [(2056, le32Bytes 5), (5248, le16Bytes 0x41ED ++ [0, 0] ++ le32Bytes 1024), (5288, le32Bytes 8),
      (6400, le16Bytes 0x41ED ++ [0, 0] ++ le32Bytes 1024), (6440, le32Bytes 9),
      (6528, le16Bytes 0x8180), (6656, le16Bytes 0x8180),
      (8192, le32Bytes 11 ++ le16Bytes 12 ++ [1, 2, 0x61, 0, 0, 0]),
      (8204, le32Bytes 12 ++ le16Bytes 1012 ++ [3, 1, 0x61, 0x5C, 0x62, 0]),
      (9216, le32Bytes 13 ++ le16Bytes 1024 ++ [1, 1, 0x62, 0, 0, 0])]

def separatorDevice : Device Id := separatorDisk.device wholeDevice

def separatorEntries : List DirEntryInfo :=
  [⟨11, [0x61], 2, true, false⟩, ⟨12, [0x61, 0x5C, 0x62], 1, false, false⟩]

theorem listed_entry_found_dir :
    lookupPath separatorDevice (plainReader 16) 2 [slash, 0x61] = pure (some 11) :=
  listed_entry_found separatorDisk wholeDevice (plainReader 16) 2 [] separatorEntries
    ⟨11, [0x61], 2, true, false⟩ (by decide)
    (result_eq_some.mp (show result (listDirectoryPath separatorDevice (plainReader 16) 2 []) =
      some (some separatorEntries) by decide +kernel))
    (by decide) (by decide) (by decide) (by decide)

/-- The listing of the root shows the name `a\b` for the inode 12, and its path leads to
the inode 13. Listed under a dot, the root shows the name a, and `./a` leads nowhere. -/
theorem separator_name_and_dot :
    (result (listDirectoryPath separatorDevice (plainReader 16) 2 []) = some (some separatorEntries) ∧
      result (lookupPath separatorDevice (plainReader 16) 2 [slash, 0x61, backslash, 0x62]) =
        some (some 13)) ∧
    result (listDirectoryPath separatorDevice (plainReader 16) 2 [dot]) = some (some separatorEntries) ∧
      result (lookupPath separatorDevice (plainReader 16) 2 [dot, slash, 0x61]) = some none := by
  decide +kernel

end Linux2Win.ListedPaths

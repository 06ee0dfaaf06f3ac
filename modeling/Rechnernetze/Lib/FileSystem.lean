import Mathlib.Data.List.Basic
import Mathlib.Data.List.TakeWhile

/-!
# A POSIX directory tree

Paths are byte strings and a file system is a tree of directories and regular files, given
by the entries at absolute locations (the component list from the root). There are no
symbolic links, permissions or special files. The operations are those of
`std::filesystem` and of opening a file for appending, with their documented results:

* `resolve` walks a path as the kernel does (`.`, `..`, empty components, the working
  directory, a component that is missing or no directory, one that is too long);
* `existsAt`, `isDirectory`, `remove`, `openAppend`, `append`, `readFile`;
* `Path.join` (`operator/`) and `Path.filename`.

The walk looks only at which locations are directories. So does everything proved about
it here: `resolve_congr` and `resolve_mono` compare two trees by their directories, and
`resolve_join` says where a plain file name inside a directory ends up.
-/

namespace Rechnernetze.Lib

abbrev Bytes := List UInt8

abbrev Path := Bytes

/-- An absolute location: the components from the root. -/
abbrev Location := List Bytes

/-- The byte `/`. -/
def slash : UInt8 := 47

/-- The component `.`. -/
def dot : Bytes := [46]

/-- The component `..`. -/
def dotdot : Bytes := [46, 46]

/-- `NAME_MAX`, the longest component the kernel accepts. -/
def nameMax : ℕ := 255

/-- What a system call sees of a path: the bytes before the first NUL. -/
def cStr (p : Path) : Path := p.takeWhile (· ≠ 0)

namespace Path

/-- `std::filesystem::path::operator/`. -/
def join (p q : Path) : Path :=
  if q.head? = some slash then q
  else if p = [] ∨ p.getLast? = some slash then p ++ q
  else p ++ slash :: q

/-- `std::filesystem::path::filename`: what follows the last `/`. -/
def filename (p : Path) : Path := (p.splitOn slash).getLastD []

end Path

/-- A component that names an entry of a directory. -/
structure PlainName (n : Bytes) : Prop where
  ne_nil : n ≠ []
  ne_dot : n ≠ dot
  ne_dotdot : n ≠ dotdot
  no_slash : slash ∉ n
  no_nul : (0 : UInt8) ∉ n

inductive Node where
  | directory
  | regular (content : Bytes)
deriving DecidableEq

/-- The error codes the callers can tell apart; `notFound` is `ENOENT` or `ENOTDIR`. -/
inductive Errno where
  | notFound
  | nameTooLong
  | isDirectory
  | notRemovable
deriving DecidableEq

structure FileSystem where
  /-- The working directory of the process. -/
  cwd : Location
  entries : List (Location × Node)

namespace FileSystem

def node (fs : FileSystem) (l : Location) : Option Node := fs.entries.lookup l

def isDir (fs : FileSystem) (l : Location) : Bool := fs.node l = some .directory

/-- Put `n` at location `l`. -/
def set (fs : FileSystem) (l : Location) (n : Node) : FileSystem :=
  { fs with entries := (l, n) :: fs.entries }

/-- Remove what is at location `l`. -/
def erase (fs : FileSystem) (l : Location) : FileSystem :=
  { fs with entries := fs.entries.filter fun e => e.1 ≠ l }

/-- No entry lies directly below `l`. -/
def isEmptyDir (fs : FileSystem) (l : Location) : Bool :=
  fs.entries.all fun e => e.1 = [] ∨ e.1.dropLast ≠ l

/-! ## Path resolution -/

/-- Follow the components from `l`; every component is looked up in a directory. -/
def walk (fs : FileSystem) : Location → List Bytes → Except Errno Location
  | l, [] => .ok l
  | l, c :: cs =>
    if fs.isDir l then
      if c = [] ∨ c = dot then walk fs l cs
      else if c = dotdot then walk fs l.dropLast cs
      else if nameMax < c.length then .error .nameTooLong
      else walk fs (l ++ [c]) cs
    else .error .notFound

/-- Where the walk starts. -/
def start (fs : FileSystem) (p : Path) : Location :=
  if p.head? = some slash then [] else fs.cwd

/-- The location a path denotes; the last component need not exist. -/
def resolve (fs : FileSystem) (p : Path) : Except Errno Location :=
  if cStr p = [] then .error .notFound
  else fs.walk (fs.start (cStr p)) ((cStr p).splitOn slash)

/-! ## Operations -/

/-- `std::filesystem::exists`; the errors it throws on are `.error`. -/
def existsAt (fs : FileSystem) (p : Path) : Except Errno Bool :=
  match fs.resolve p with
  | .ok l => .ok (fs.node l).isSome
  | .error .notFound => .ok false
  | .error e => .error e

/-- `std::filesystem::is_directory`. -/
def isDirectory (fs : FileSystem) (p : Path) : Bool :=
  match fs.resolve p with
  | .ok l => fs.isDir l
  | .error _ => false

/-- `rmdir` refuses a path that ends in `.` or `..`. -/
def endsInDots (p : Path) : Bool :=
  let last := (((cStr p).splitOn slash).filter (· ≠ [])).getLast?
  last = some dot ∨ last = some dotdot

/-- `std::filesystem::remove`: unlinks a file, removes an empty directory, does nothing
where there is nothing, and throws otherwise. -/
def remove (fs : FileSystem) (p : Path) : Except Errno FileSystem :=
  match fs.resolve p with
  | .error .notFound => .ok fs
  | .error e => .error e
  | .ok l =>
    match fs.node l with
    | none => .ok fs
    | some (.regular _) => .ok (fs.erase l)
    | some .directory =>
      if l = [] ∨ endsInDots p ∨ ¬ fs.isEmptyDir l then .error .notRemovable
      else .ok (fs.erase l)

/-- `open` with `O_WRONLY | O_CREAT | O_APPEND`: the tree afterwards and the open file. -/
def openAppend (fs : FileSystem) (p : Path) : Except Errno (FileSystem × Location) :=
  match fs.resolve p with
  | .error e => .error e
  | .ok l =>
    match fs.node l with
    | some .directory => .error .isDirectory
    | some (.regular _) => .ok (fs, l)
    | none => .ok (fs.set l (.regular []), l)

/-- `write` to the open file at `l`. -/
def append (fs : FileSystem) (l : Location) (data : Bytes) : FileSystem :=
  match fs.node l with
  | some (.regular content) => fs.set l (.regular (content ++ data))
  | _ => fs

/-- The bytes of the regular file a path denotes. -/
def readFile (fs : FileSystem) (p : Path) : Option Bytes :=
  match fs.resolve p with
  | .ok l =>
    match fs.node l with
    | some (.regular content) => some content
    | _ => none
  | .error _ => none

/-- Put a new empty file in the place of whatever `p` denotes. -/
def replace (fs : FileSystem) (p : Path) : Except Errno (FileSystem × Location) :=
  match fs.existsAt p with
  | .error e => .error e
  | .ok true =>
    match fs.remove p with
    | .error e => .error e
    | .ok fs' => fs'.openAppend p
  | .ok false => fs.openAppend p

/-! ## Entries after an update -/

variable {fs fs' : FileSystem} {l l' : Location} {n : Node} {p : Path}

@[simp] theorem node_set_self : (fs.set l n).node l = some n := by
  simp [node, set]

theorem node_set_of_ne (h : l' ≠ l) : (fs.set l n).node l' = fs.node l' := by
  simp [node, set, List.lookup_cons, beq_eq_false_iff_ne.mpr h]

theorem lookup_filter_ne (es : List (Location × Node)) (l' : Location) :
    (es.filter fun e => e.1 ≠ l).lookup l' = if l' = l then none else es.lookup l' := by
  induction es with
  | nil => simp
  | cons e es ih =>
    rw [List.filter_cons]
    by_cases he : e.1 = l
    · rw [if_neg (by simpa using he), ih, List.lookup_cons]
      by_cases hl : l' = l
      · simp [hl]
      · rw [if_neg hl, if_neg hl, beq_eq_false_iff_ne.mpr (by rw [he]; exact hl)]
    · rw [if_pos (by simpa using he), List.lookup_cons, ih, List.lookup_cons]
      by_cases hl : l' = e.1
      · simp [hl, he]
      · rw [beq_eq_false_iff_ne.mpr hl]

@[simp] theorem node_erase_self : (fs.erase l).node l = none := by
  rw [node, erase, lookup_filter_ne, if_pos rfl]

theorem node_erase_of_ne (h : l' ≠ l) : (fs.erase l).node l' = fs.node l' := by
  rw [node, erase, lookup_filter_ne, if_neg h, node]

/-- Writing a regular file where no directory is leaves the directories alone. -/
theorem isDir_set_regular {content : Bytes} (h : fs.isDir l = false) :
    (fs.set l (.regular content)).isDir l' = fs.isDir l' := by
  by_cases hl : l' = l
  · subst hl; rw [h]; simp [isDir]
  · simp [isDir, node_set_of_ne hl]

theorem isDir_erase (h : fs.isDir l = false) : (fs.erase l).isDir l' = fs.isDir l' := by
  by_cases hl : l' = l
  · subst hl; rw [h]; simp [isDir]
  · simp [isDir, node_erase_of_ne hl]

theorem isDir_of_isDir_erase (h : (fs.erase l).isDir l' = true) : fs.isDir l' = true := by
  by_cases hl : l' = l
  · subst hl; simp [isDir] at h
  · simpa [isDir, node_erase_of_ne hl] using h

/-! ## Writing to an open file -/

theorem append_of_regular {content data : Bytes} (h : fs.node l = some (.regular content)) :
    fs.append l data = fs.set l (.regular (content ++ data)) := by
  simp [append, h]

theorem node_append_self {content data : Bytes} (h : fs.node l = some (.regular content)) :
    (fs.append l data).node l = some (.regular (content ++ data)) := by
  rw [append_of_regular h, node_set_self]

theorem node_append_of_ne {data : Bytes} (h : l' ≠ l) :
    (fs.append l data).node l' = fs.node l' := by
  unfold append
  split
  · exact node_set_of_ne h
  · rfl

@[simp] theorem cwd_append {data : Bytes} : (fs.append l data).cwd = fs.cwd := by
  unfold append
  split <;> rfl

@[simp] theorem isDir_append {data : Bytes} : (fs.append l data).isDir l' = fs.isDir l' := by
  unfold append
  split
  · rename_i content h
    exact isDir_set_regular (by simp [isDir, h])
  · rfl

/-! ## Trees compared by their directories -/

/-- `fs'` has only directories that `fs` has, and the same working directory. -/
structure DirsLE (fs' fs : FileSystem) : Prop where
  cwd : fs'.cwd = fs.cwd
  isDir : ∀ l, fs'.isDir l = true → fs.isDir l = true

/-- The two trees have the same directories. -/
structure SameDirs (fs' fs : FileSystem) : Prop where
  cwd : fs'.cwd = fs.cwd
  isDir : ∀ l, fs'.isDir l = fs.isDir l

theorem DirsLE.refl (fs : FileSystem) : DirsLE fs fs := ⟨rfl, fun _ h => h⟩

theorem DirsLE.trans {fs'' : FileSystem} (h : DirsLE fs'' fs') (h' : DirsLE fs' fs) :
    DirsLE fs'' fs := ⟨h.cwd.trans h'.cwd, fun l hl => h'.isDir l (h.isDir l hl)⟩

theorem SameDirs.dirsLE (h : SameDirs fs' fs) : DirsLE fs' fs :=
  ⟨h.cwd, fun l hl => (h.isDir l).symm.trans hl⟩

theorem SameDirs.refl (fs : FileSystem) : SameDirs fs fs := ⟨rfl, fun _ => rfl⟩

theorem sameDirs_append {data : Bytes} : SameDirs (fs.append l data) fs :=
  ⟨cwd_append, fun _ => isDir_append⟩

theorem sameDirs_erase (h : fs.isDir l = false) : SameDirs (fs.erase l) fs :=
  ⟨rfl, fun _ => isDir_erase h⟩

theorem dirsLE_erase : DirsLE (fs.erase l) fs := ⟨rfl, fun _ h => isDir_of_isDir_erase h⟩

theorem sameDirs_set_regular {content : Bytes} (h : fs.isDir l = false) :
    SameDirs (fs.set l (.regular content)) fs := ⟨rfl, fun _ => isDir_set_regular h⟩

theorem walk_congr (h : SameDirs fs' fs) (cs : List Bytes) :
    ∀ l, fs'.walk l cs = fs.walk l cs := by
  induction cs with
  | nil => exact fun _ => rfl
  | cons c cs ih =>
    intro l
    simp only [walk, h.isDir l, ih]

/-- Resolution sees only the directories. -/
theorem resolve_congr (h : SameDirs fs' fs) (p : Path) : fs'.resolve p = fs.resolve p := by
  simp only [resolve, start, h.cwd, walk_congr h]

theorem walk_mono (h : DirsLE fs' fs) (cs : List Bytes) :
    ∀ {l l'}, fs'.walk l cs = .ok l' → fs.walk l cs = .ok l' := by
  induction cs with
  | nil => exact fun hw => hw
  | cons c cs ih =>
    intro l l' hw
    rw [walk] at hw ⊢
    split at hw
    · rename_i hd
      -- the directories that are left are looked up in the same way
      rw [if_pos (h.isDir l hd)]
      split_ifs at hw ⊢ <;> exact ih hw
    · cases hw

/-- Removing directories does not redirect the paths that still resolve. -/
theorem resolve_mono (h : DirsLE fs' fs) (hr : fs'.resolve p = .ok l) : fs.resolve p = .ok l := by
  unfold resolve start at hr ⊢
  split_ifs at hr ⊢
  · exact walk_mono h _ hr
  · rw [h.cwd] at hr; exact walk_mono h _ hr

/-! ## Where a name inside a directory ends up -/

theorem walk_append (cs ds : List Bytes) :
    ∀ {l l'}, fs.walk l (cs ++ ds) = .ok l' →
      ∃ m, fs.walk l cs = .ok m ∧ fs.walk m ds = .ok l' := by
  induction cs with
  | nil => exact fun hw => ⟨_, rfl, hw⟩
  | cons c cs ih =>
    intro l l' hw
    rw [List.cons_append, walk] at hw
    rw [walk]
    split_ifs at hw ⊢ <;> exact ih hw

/-- A plain name is looked up as an entry of the directory reached before it. -/
theorem walk_plainName {c : Bytes} (hc : PlainName c) (hw : fs.walk l [c] = .ok l') :
    fs.isDir l = true ∧ c.length ≤ nameMax ∧ l' = l ++ [c] := by
  rw [walk] at hw
  split at hw
  · rename_i hd
    rw [if_neg (by simp [hc.ne_nil, hc.ne_dot]), if_neg hc.ne_dotdot] at hw
    split at hw
    · cases hw
    · rename_i hlen
      rw [walk] at hw
      exact ⟨hd, by omega, (Except.ok.inj hw).symm⟩
  · cases hw

theorem cStr_eq_self (h : (0 : UInt8) ∉ p) : cStr p = p := by
  rw [cStr, List.takeWhile_eq_self_iff]
  intro b hb
  rw [decide_eq_true_eq]
  rintro rfl
  exact h hb

theorem cStr_append {q : Path} (hp : (0 : UInt8) ∉ p) : cStr (p ++ q) = p ++ cStr q := by
  unfold cStr
  rw [List.takeWhile_append_of_pos]
  intro b hb
  exact decide_eq_true fun h => hp (h ▸ hb)

theorem cStr_append_of_mem {q : Path} (hp : (0 : UInt8) ∈ p) : cStr (p ++ q) = cStr p := by
  obtain ⟨s, t, rfl, hs⟩ := List.eq_append_cons_of_mem hp
  rw [List.append_assoc, cStr_append hs, cStr_append hs]
  rfl

/-- A path begins with a slash to the operating system if it does. -/
theorem head?_cStr : (cStr p).head? = some slash ↔ p.head? = some slash := by
  cases p with
  | nil => rfl
  | cons b p =>
    by_cases hb : b = 0
    · subst hb
      exact ⟨nofun, fun h => absurd (Option.some.inj h) (by decide)⟩
    · rw [cStr, List.takeWhile_cons, if_pos (decide_eq_true hb)]
      rfl

/-- What the operating system sees of a name below a directory. -/
theorem cStr_join {q : Path} (hp : (0 : UInt8) ∉ p) :
    cStr (Path.join p q) = Path.join p (cStr q) := by
  unfold Path.join
  by_cases hq : q.head? = some slash
  · rw [if_pos hq, if_pos (head?_cStr.mpr hq)]
  · rw [if_neg hq, if_neg (mt head?_cStr.mp hq)]
    split_ifs with hend
    · exact cStr_append hp
    · rw [cStr_append hp, cStr, List.takeWhile_cons, if_pos (by decide)]
      rfl

/-- The components of a joined path end in the joined name. -/
theorem splitOn_join (d : Path) {c : Bytes} (hc : slash ∉ c) :
    ∃ cs, (Path.join d c).splitOn slash = cs ++ [c] := by
  have hh : c.head? ≠ some slash := fun h => hc (List.mem_of_mem_head? h)
  have hsingle : c.splitOn slash = [c] := List.splitOn_eq_singleton hc
  rw [Path.join, if_neg hh]
  split
  · rename_i hd
    rcases hd with rfl | hd
    · exact ⟨[], by simpa using hsingle⟩
    · obtain ⟨d', rfl⟩ := List.getLast?_eq_some_iff.mp hd
      refine ⟨d'.splitOn slash, ?_⟩
      rw [List.append_assoc, List.singleton_append, List.splitOn_append_cons_self, hsingle]
  · exact ⟨d.splitOn slash, by rw [List.splitOn_append_cons_self, hsingle]⟩

theorem zero_notMem_join {d : Path} {c : Bytes} (hd : (0 : UInt8) ∉ d) (hc : (0 : UInt8) ∉ c) :
    (0 : UInt8) ∉ Path.join d c := by
  unfold Path.join
  split_ifs <;> simp [hd, hc, slash]

/-- **A plain name joined to a directory** denotes the entry of that name: the location
ends in it. -/
theorem resolve_join {d : Path} {c : Bytes} (hd : (0 : UInt8) ∉ d) (hc : PlainName c)
    (hr : fs.resolve (Path.join d c) = .ok l) : ∃ m, fs.isDir m = true ∧ l = m ++ [c] := by
  rw [resolve, cStr_eq_self (zero_notMem_join hd hc.no_nul)] at hr
  split at hr
  · cases hr
  · obtain ⟨cs, hcs⟩ := splitOn_join d hc.no_slash
    rw [hcs] at hr
    obtain ⟨m, -, hm⟩ := walk_append cs [c] hr
    obtain ⟨hdir, -, rfl⟩ := walk_plainName hc hm
    exact ⟨m, hdir, rfl⟩

/-- Every directory lies in a directory. -/
def DirsClosed (fs : FileSystem) : Prop := ∀ l, fs.isDir l = true → fs.isDir l.dropLast = true

/-- The components of a path consist of its bytes, without the separator. -/
theorem mem_splitOn_slash {c : Bytes} :
    ∀ {p : Path}, c ∈ p.splitOn slash → slash ∉ c ∧ ∀ b ∈ c, b ∈ p := by
  intro p
  induction p generalizing c with
  | nil =>
    intro h
    obtain rfl : c = [] := by simpa using h
    simp
  | cons x xs ih =>
    intro h
    rw [List.splitOn_cons_eq_if_modifyHead] at h
    split at h
    · rcases List.mem_cons.mp h with rfl | h
      · simp
      · exact ⟨(ih h).1, fun b hb => List.mem_cons_of_mem _ ((ih h).2 b hb)⟩
    · rename_i hx
      obtain ⟨d, ds, hds⟩ := List.exists_cons_of_ne_nil (List.splitOn_ne_nil slash xs)
      rw [hds, List.modifyHead_cons] at h
      rcases List.mem_cons.mp h with rfl | h
      · have hd := ih (c := d) (by rw [hds]; exact List.mem_cons_self ..)
        refine ⟨fun hs => ?_, fun b hb => ?_⟩
        · rcases List.mem_cons.mp hs with h' | h'
          · exact hx (by rw [h']; exact BEq.rfl)
          · exact hd.1 h'
        · rcases List.mem_cons.mp hb with rfl | h'
          · exact List.mem_cons_self ..
          · exact List.mem_cons_of_mem _ (hd.2 b h')
      · have hc := ih (c := c) (by rw [hds]; exact List.mem_cons_of_mem _ h)
        exact ⟨hc.1, fun b hb => List.mem_cons_of_mem _ (hc.2 b hb)⟩

theorem splitOn_eq_append_filename (p : Path) :
    ∃ cs, p.splitOn slash = cs ++ [Path.filename p] := by
  have h := List.splitOn_ne_nil slash p
  refine ⟨(p.splitOn slash).dropLast, ?_⟩
  rw [Path.filename, List.getLastD_eq_getLast?, List.getLast?_eq_some_getLast h, Option.getD_some,
    List.dropLast_append_getLast]

/-- What follows without a separator is part of the file name. -/
theorem filename_append (p : Path) {q : Bytes} (hq : slash ∉ q) :
    Path.filename (p ++ q) = Path.filename p ++ q := by
  have hlast : ∀ {d : Path} {c : Bytes}, slash ∉ c → Path.filename (d ++ slash :: c) = c := by
    intro d c hc
    rw [Path.filename, List.splitOn_append_cons_self, List.splitOn_eq_singleton hc,
      List.getLastD_concat]
  by_cases hp : slash ∈ p
  · obtain ⟨c, d, heq, hc⟩ := List.eq_append_cons_of_mem (List.mem_reverse.mpr hp)
    obtain rfl : p = d.reverse ++ slash :: c.reverse := by
      rw [← List.reverse_reverse p, heq]
      simp
    have hc' : slash ∉ c.reverse := mt List.mem_reverse.mp hc
    have hcq : slash ∉ c.reverse ++ q := fun h => (List.mem_append.mp h).elim hc' hq
    rw [List.append_assoc, List.cons_append, hlast hcq, hlast hc']
  · have hpq : slash ∉ p ++ q := fun h => (List.mem_append.mp h).elim hp hq
    rw [Path.filename, Path.filename, List.splitOn_eq_singleton hpq, List.splitOn_eq_singleton hp]
    rfl

/-- **The file name of a path to something that is no directory** is a plain name that the
kernel accepts. -/
theorem plainName_filename (hclosed : fs.DirsClosed) (hp : (0 : UInt8) ∉ p)
    (hr : fs.resolve p = .ok l) (hl : fs.isDir l = false) :
    PlainName (Path.filename p) ∧ (Path.filename p).length ≤ nameMax := by
  rw [resolve, cStr_eq_self hp] at hr
  split at hr
  · cases hr
  · obtain ⟨cs, hcs⟩ := splitOn_eq_append_filename p
    obtain ⟨hslash, hbytes⟩ := mem_splitOn_slash (p := p) (c := Path.filename p) (by rw [hcs]; simp)
    rw [hcs] at hr
    obtain ⟨m, -, hm⟩ := walk_append cs _ hr
    have hdir : fs.isDir m = true := by
      by_contra h
      rw [walk, if_neg h] at hm
      cases hm
    have hplain : PlainName (Path.filename p) := by
      -- an empty last component or one of dots would end the walk in a directory
      have hstay : Path.filename p ≠ [] ∧ Path.filename p ≠ dot := by
        rw [← not_or]
        intro h
        rw [walk, if_pos hdir, if_pos h, walk] at hm
        rw [← Except.ok.inj hm, hdir] at hl
        cases hl
      refine ⟨hstay.1, hstay.2, fun h => ?_, hslash, fun h => hp (hbytes 0 h)⟩
      rw [walk, if_pos hdir, if_neg (by simp [hstay]), if_pos h, walk] at hm
      rw [← Except.ok.inj hm, hclosed m hdir] at hl
      cases hl
    exact ⟨hplain, (walk_plainName hplain hm).2.1⟩

/-! ## Replacing a file -/

/-- `fs'` is `fs` with a new empty file at `l`, the location `p` denotes; whatever was
there is gone and nothing else has changed. -/
structure Created (fs fs' : FileSystem) (p : Path) (l : Location) : Prop where
  resolve_before : fs.resolve p = .ok l
  resolve_after : fs'.resolve p = .ok l
  node_eq : fs'.node l = some (.regular [])
  others : ∀ l', l' ≠ l → fs'.node l' = fs.node l'
  dirsLE : DirsLE fs' fs

theorem Created.of_missing (hr : fs.resolve p = .ok l) (hn : fs.node l = none) :
    Created fs (fs.set l (.regular [])) p l := by
  have hdir : fs.isDir l = false := by simp [isDir, hn]
  exact ⟨hr, (resolve_congr (sameDirs_set_regular hdir) p).trans hr, node_set_self,
    fun _ h => node_set_of_ne h, (sameDirs_set_regular hdir).dirsLE⟩

theorem openAppend_eq_ok (h : fs.openAppend p = .ok (fs', l)) :
    fs.resolve p = .ok l ∧
      ((∃ content, fs.node l = some (.regular content) ∧ fs' = fs) ∨
        (fs.node l = none ∧ fs' = fs.set l (.regular []))) := by
  unfold openAppend at h
  split at h
  · cases h
  · rename_i l₀ hr
    split at h
    · cases h
    · rename_i content hn
      obtain ⟨rfl, rfl⟩ := Prod.mk.inj (Except.ok.inj h)
      exact ⟨hr, Or.inl ⟨content, hn, rfl⟩⟩
    · rename_i hn
      obtain ⟨rfl, rfl⟩ := Prod.mk.inj (Except.ok.inj h)
      exact ⟨hr, Or.inr ⟨hn, rfl⟩⟩

/-- Opening a path that does not exist creates the file. -/
theorem Created.of_openAppend (he : fs.existsAt p = .ok false)
    (ho : fs.openAppend p = .ok (fs', l)) : Created fs fs' p l := by
  obtain ⟨hr, ⟨content, hn, -⟩ | ⟨hn, rfl⟩⟩ := openAppend_eq_ok ho
  · simp [existsAt, hr, hn] at he
  · exact .of_missing hr hn

/-- What a successful `remove` of an existing path does. -/
theorem remove_eq_ok (he : fs.existsAt p = .ok true) (h : fs.remove p = .ok fs') :
    ∃ l, fs.resolve p = .ok l ∧ fs' = fs.erase l := by
  unfold existsAt at he
  split at he
  · rename_i l hr
    refine ⟨l, hr, ?_⟩
    rw [remove, hr] at h
    cases hn : fs.node l with
    | none => rw [hn] at he; simp at he
    | some n =>
      cases n with
      | regular content =>
        simp only [hn] at h
        exact (Except.ok.inj h).symm
      | directory =>
        simp only [hn] at h
        split at h
        · cases h
        · exact (Except.ok.inj h).symm
  · cases he
  · cases he

/-- Removing an existing path and opening it again replaces it by an empty file. -/
theorem Created.of_remove_openAppend {fs₁ : FileSystem} (he : fs.existsAt p = .ok true)
    (hrm : fs.remove p = .ok fs₁) (ho : fs₁.openAppend p = .ok (fs', l)) :
    Created fs fs' p l := by
  obtain ⟨l₀, hr₀, rfl⟩ := remove_eq_ok he hrm
  obtain ⟨hr, hcase⟩ := openAppend_eq_ok ho
  -- the path still denotes the location that was removed
  have hl : l = l₀ := Except.ok.inj ((resolve_mono dirsLE_erase hr).symm.trans hr₀)
  subst hl
  obtain ⟨content, hn, -⟩ | ⟨hn, rfl⟩ := hcase
  · simp at hn
  · have hc := Created.of_missing hr hn
    exact ⟨hr₀, hc.resolve_after, hc.node_eq,
      fun l' h => (hc.others l' h).trans (node_erase_of_ne h), hc.dirsLE.trans dirsLE_erase⟩

/-- **What replacing does**, wherever it succeeds. -/
theorem Created.of_replace (h : fs.replace p = .ok (fs', l)) : Created fs fs' p l := by
  unfold replace at h
  split at h
  · cases h
  · rename_i hex
    split at h
    · cases h
    · rename_i fs₁ hrm
      exact .of_remove_openAppend hex hrm h
  · rename_i hex
    exact .of_openAppend hex h

theorem remove_of_regular {content : Bytes} (hr : fs.resolve p = .ok l)
    (hn : fs.node l = some (.regular content)) : fs.remove p = .ok (fs.erase l) := by
  simp [remove, hr, hn]

/-- A path to something that is no directory can be replaced. -/
theorem replace_of_isDir_eq_false (hr : fs.resolve p = .ok l) (hdir : fs.isDir l = false) :
    ∃ fs', fs.replace p = .ok (fs', l) := by
  cases hn : fs.node l with
  | none =>
    refine ⟨fs.set l (.regular []), ?_⟩
    simp [replace, existsAt, openAppend, hr, hn]
  | some n =>
    cases n with
    | directory => simp [isDir, hn] at hdir
    | regular content =>
      -- erasing a file leaves the path as it was
      have hr' := (resolve_congr (sameDirs_erase hdir) p).trans hr
      refine ⟨(fs.erase l).set l (.regular []), ?_⟩
      simp [replace, existsAt, remove, openAppend, hr, hn, hr']

end FileSystem

end Rechnernetze.Lib

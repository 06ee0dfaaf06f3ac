import Mathlib.Data.List.Induction
import Rechnernetze.Lib.FileSystem

/-!
# Lexical normal forms of paths

`lexicallyNormal` removes from a path what can be removed without looking at a file system:
empty components, `.`, and names that a `..` follows. What is left of a relative path is some
`..` followed by names, and of an absolute path only names. A component pushed onto a normal
form acts on it, and so does a whole relative path: it climbs as often as its normal form
begins with `..` and then descends (`foldl_push`). From this it follows when a path put
together from a directory and a relative path stays inside that directory.
-/

namespace Rechnernetze.Lib

/-- A normal form: `..` `ups` times, then `names`. Above the root there is nothing. -/
@[ext] structure NormalPath where
  absolute : Bool
  ups : ℕ
  names : List Bytes
  rooted : absolute = true → ups = 0
deriving DecidableEq

namespace NormalPath

/-- The normal form of an empty relative path. -/
def here : NormalPath := ⟨false, 0, [], nofun⟩

/-- The normal form of `/`. -/
def root : NormalPath := ⟨true, 0, [], fun _ => rfl⟩

/-- The path with `names` below it. -/
def extend (n : NormalPath) (names : List Bytes) : NormalPath :=
  { n with names := n.names ++ names }

/-- The path one level up. -/
def parent (n : NormalPath) : NormalPath :=
  if n.names ≠ [] then { n with names := n.names.dropLast }
  else if h : n.absolute = true then n
  else { n with ups := n.ups + 1, rooted := fun h' => absurd h' h }

/-- Append one component. -/
def push (n : NormalPath) (c : Bytes) : NormalPath :=
  if c = [] ∨ c = dot then n
  else if c = dotdot then n.parent
  else n.extend [c]

/-- The path `p` is `n` itself or lies below it. -/
def Below (n p : NormalPath) : Prop := ∃ names, p = n.extend names

/-- The path `p` is an entry of the directory `n`. -/
def ChildOf (n p : NormalPath) : Prop := ∃ c, p = n.extend [c]

/-- Climb `k` levels. -/
def climb (n : NormalPath) : ℕ → NormalPath
  | 0 => n
  | k + 1 => (n.climb k).parent

end NormalPath

open NormalPath

/-- The normal form of a path read as a relative one. -/
def relative (p : Path) : NormalPath := (p.splitOn slash).foldl push here

/-- `std::filesystem::path::lexically_normal`, without the slash at the end of a path. -/
def lexicallyNormal (p : Path) : NormalPath :=
  (p.splitOn slash).foldl push (if p.head? = some slash then root else here)

namespace NormalPath

section
variable {n m : NormalPath} {c : Bytes} {cs names : List Bytes} {k : ℕ} {p q : Path}

/-! ## Climbing and descending -/

theorem extend_nil : n.extend [] = n := by
  simp [extend]

theorem extend_extend : (n.extend names).extend cs = n.extend (names ++ cs) := by
  simp [extend]

theorem parent_extend : (n.extend (names ++ [c])).parent = n.extend names := by
  have hne : (n.extend (names ++ [c])).names ≠ [] := by simp [extend]
  rw [parent, if_pos hne]
  simp [extend]

theorem absolute_parent : n.parent.absolute = n.absolute := by
  unfold parent
  split
  · rfl
  · split
    · rfl
    · rfl

theorem absolute_push : (n.push c).absolute = n.absolute := by
  unfold push
  split
  · rfl
  · split
    · exact absolute_parent
    · rfl

theorem absolute_foldl_push : (cs.foldl push n).absolute = n.absolute := by
  induction cs generalizing n with
  | nil => rfl
  | cons c cs ih => rw [List.foldl_cons, ih, absolute_push]

/-- **A relative path acts** by climbing and descending. -/
theorem foldl_push (cs : List Bytes) (n : NormalPath) :
    cs.foldl push n
      = (n.climb (cs.foldl push here).ups).extend (cs.foldl push here).names := by
  induction cs using List.reverseRecOn with
  | nil => exact extend_nil.symm
  | append_singleton cs c ih =>
    rw [List.foldl_append, List.foldl_append, List.foldl_cons, List.foldl_nil, List.foldl_cons,
      List.foldl_nil, ih]
    have hrelative : (cs.foldl push here).absolute = false := absolute_foldl_push
    generalize cs.foldl push here = r at hrelative ⊢
    unfold push
    by_cases hskip : c = [] ∨ c = dot
    · rw [if_pos hskip, if_pos hskip]
    rw [if_neg hskip, if_neg hskip]
    by_cases hup : c = dotdot
    · rw [if_pos hup, if_pos hup]
      by_cases hnames : r.names = []
      · -- nothing to cancel: one level more is climbed
        have hparent : r.parent.ups = r.ups + 1 ∧ r.parent.names = [] := by
          rw [parent, if_neg (not_not.mpr hnames), dif_neg (by rw [hrelative]; decide)]
          exact ⟨rfl, hnames⟩
        rw [hparent.1, hparent.2, hnames, extend_nil, extend_nil, climb]
      · obtain ⟨init, last, hsplit⟩ : ∃ init last, r.names = init ++ [last] :=
          ⟨r.names.dropLast, r.names.getLast hnames, (List.dropLast_append_getLast hnames).symm⟩
        have hparent : r.parent.ups = r.ups ∧ r.parent.names = init := by
          rw [parent, if_pos hnames]
          exact ⟨rfl, by rw [hsplit, List.dropLast_concat]⟩
        rw [hparent.1, hparent.2, hsplit, parent_extend]
    · rw [if_neg hup, if_neg hup, extend_extend]
      rfl

/-! ## Where climbing ends -/

theorem climb_of_le (h : k ≤ n.names.length) :
    n.climb k = { n with names := n.names.take (n.names.length - k) } := by
  induction k with
  | zero => simp [climb]
  | succ k ih =>
    rw [climb, ih (by omega), parent]
    have hne : n.names.take (n.names.length - k) ≠ [] := by
      intro hnil
      have hlength := congrArg List.length hnil
      rw [List.length_take, List.length_nil] at hlength
      omega
    have hdrop : (n.names.take (n.names.length - k)).dropLast
        = n.names.take (n.names.length - (k + 1)) := by
      rw [List.dropLast_eq_take, List.length_take, List.take_take]
      congr 1
      omega
    rw [if_pos hne, hdrop]

theorem climb_of_absolute (h : n.absolute = true) (hk : n.names.length ≤ k) :
    n.climb k = { n with names := [] } := by
  induction k with
  | zero =>
    have hnil : n.names = [] := List.length_eq_zero_iff.mp (Nat.le_zero.mp hk)
    rw [climb, ← hnil]
  | succ k ih =>
    rcases Nat.lt_or_ge k n.names.length with hlt | hge
    · have heq : k + 1 = n.names.length := by omega
      rw [climb_of_le (by omega), heq, Nat.sub_self, List.take_zero]
    · rw [climb, ih hge, parent, if_neg (by simp), dif_pos h]

theorem climb_of_relative (h : n.absolute = false) (hk : n.names.length < k) :
    (n.climb k).ups = n.ups + (k - n.names.length) ∧ (n.climb k).names = [] ∧
      (n.climb k).absolute = false := by
  induction k with
  | zero => omega
  | succ k ih =>
    rcases Nat.lt_or_ge n.names.length k with hlt | hge
    · obtain ⟨hups, hnames, habsolute⟩ := ih hlt
      rw [climb, parent, if_neg (not_not.mpr hnames), dif_neg (by rw [habsolute]; decide)]
      refine ⟨?_, hnames, habsolute⟩
      show (n.climb k).ups + 1 = n.ups + (k + 1 - n.names.length)
      omega
    · have heq : k = n.names.length := by omega
      have hclimb : n.climb k = { n with names := [] } := by
        rw [climb_of_le (by omega), heq, Nat.sub_self, List.take_zero]
      rw [climb, hclimb, parent, if_neg (by simp), dif_neg (by rw [h]; decide)]
      refine ⟨?_, rfl, h⟩
      show n.ups + 1 = n.ups + (k + 1 - n.names.length)
      omega

/-- **When a relative path leads to `names` below the directory**: it does not climb above the
beginning of a relative path, and it descends again through what it has left. -/
theorem climb_extend_eq_iff :
    (n.climb k).extend cs = n.extend names ↔
      (n.absolute = true ∨ k ≤ n.names.length) ∧
        cs = n.names.drop (n.names.length - k) ++ names := by
  by_cases hk : k ≤ n.names.length
  · have hsplit := List.take_append_drop (n.names.length - k) n.names
    have hnames : (n.climb k).extend cs = n.extend names ↔
        n.names.take (n.names.length - k) ++ cs = n.names ++ names := by
      rw [climb_of_le hk]
      simp [extend]
    have hdrop : n.names ++ names
        = n.names.take (n.names.length - k) ++ (n.names.drop (n.names.length - k) ++ names) := by
      rw [← List.append_assoc, hsplit]
    rw [hnames, hdrop, List.append_cancel_left_eq]
    exact ⟨fun h => ⟨Or.inr hk, h⟩, And.right⟩
  · have hzero : n.names.length - k = 0 := by omega
    rw [hzero, List.drop_zero]
    cases habsolute : n.absolute with
    | true =>
      rw [climb_of_absolute habsolute (by omega)]
      simp [extend]
    | false =>
      obtain ⟨hups, -, -⟩ := climb_of_relative habsolute (not_le.mp hk)
      constructor
      · intro h
        have hsame := congrArg NormalPath.ups h
        have heq : (n.climb k).ups = n.ups := hsame
        omega
      · rintro ⟨hno | hle, -⟩
        · cases hno
        · exact absurd hle hk

theorem below_climb_extend_iff :
    Below n ((n.climb k).extend cs) ↔
      (n.absolute = true ∨ k ≤ n.names.length) ∧
        n.names.drop (n.names.length - k) <+: cs := by
  constructor
  · rintro ⟨names, h⟩
    obtain ⟨hclimb, rfl⟩ := climb_extend_eq_iff.mp h
    exact ⟨hclimb, List.prefix_append ..⟩
  · rintro ⟨hclimb, names, rfl⟩
    exact ⟨names, climb_extend_eq_iff.mpr ⟨hclimb, rfl⟩⟩

theorem childOf_climb_extend_iff :
    ChildOf n ((n.climb k).extend cs) ↔
      (n.absolute = true ∨ k ≤ n.names.length) ∧
        ∃ c, cs = n.names.drop (n.names.length - k) ++ [c] := by
  constructor
  · rintro ⟨c, h⟩
    obtain ⟨hclimb, heq⟩ := climb_extend_eq_iff.mp h
    exact ⟨hclimb, c, heq⟩
  · rintro ⟨hclimb, c, heq⟩
    exact ⟨c, climb_extend_eq_iff.mpr ⟨hclimb, heq⟩⟩

theorem childOf_root_extend_iff :
    ChildOf n (root.extend cs) ↔ n.absolute = true ∧ ∃ c, cs = n.names ++ [c] := by
  constructor
  · rintro ⟨c, h⟩
    have habsolute : true = n.absolute := congrArg NormalPath.absolute h
    have hnames : cs = n.names ++ [c] := congrArg NormalPath.names h
    exact ⟨habsolute.symm, c, hnames⟩
  · rintro ⟨habsolute, c, rfl⟩
    refine ⟨c, NormalPath.ext habsolute.symm ?_ rfl⟩
    exact (n.rooted habsolute).symm

/-- What is below a path that is below `n`. -/
theorem Below.extend (h : Below n m) : Below n (m.extend names) := by
  obtain ⟨cs, rfl⟩ := h
  exact ⟨cs ++ names, extend_extend⟩

/-! ## Paths put together -/

/-- A relative path below another path. -/
theorem lexicallyNormal_append (hp : p ≠ []) :
    lexicallyNormal (p ++ slash :: q)
      = ((lexicallyNormal p).climb (relative q).ups).extend (relative q).names := by
  have hhead : (p ++ slash :: q).head? = p.head? := by
    obtain ⟨a, p, rfl⟩ := List.exists_cons_of_ne_nil hp
    rfl
  rw [lexicallyNormal, hhead, List.splitOn_append_cons_self, List.foldl_append, foldl_push]
  rfl

/-- A slash at the beginning of a path read as a relative one, or at the end of a path, makes
no difference. -/
theorem relative_cons_slash : relative (slash :: p) = relative p := by
  have hsplit : (slash :: p).splitOn slash = [] :: p.splitOn slash := by
    have h := List.splitOn_append_cons_self ([] : Bytes) p (a := slash)
    rwa [List.nil_append, List.splitOn_nil, List.singleton_append] at h
  rw [relative, hsplit]
  rfl

theorem lexicallyNormal_of_slash (h : p.head? = some slash) :
    lexicallyNormal p = root.extend (relative p).names := by
  rw [lexicallyNormal, if_pos h, foldl_push, ← relative,
    climb_of_absolute rfl (Nat.zero_le _)]
  rfl

/-- **`operator/`**: below a directory, or from the root. -/
theorem lexicallyNormal_join (p q : Path) :
    lexicallyNormal (Path.join p q)
      = if q.head? = some slash then root.extend (relative q).names
        else ((lexicallyNormal p).climb (relative q).ups).extend (relative q).names := by
  unfold Path.join
  by_cases hq : q.head? = some slash
  · rw [if_pos hq, if_pos hq, lexicallyNormal_of_slash hq]
  rw [if_neg hq, if_neg hq]
  by_cases hp : p = []
  · rw [if_pos (Or.inl hp), hp, List.nil_append, lexicallyNormal, if_neg hq, foldl_push]
    rfl
  by_cases hlast : p.getLast? = some slash
  · rw [if_pos (Or.inr hlast)]
    obtain ⟨p', rfl⟩ := List.getLast?_eq_some_iff.mp hlast
    have hhead : (p' ++ slash :: q).head? = (p' ++ [slash]).head? := by
      cases p' with
      | nil => rfl
      | cons a p' => rfl
    have hslash : (p' ++ [slash]).splitOn slash = p'.splitOn slash ++ [[]] := by
      rw [List.splitOn_append_cons_self, List.splitOn_nil]
    have hskip : ∀ n : NormalPath, n.push [] = n := fun n => if_pos (Or.inl rfl)
    rw [List.append_assoc, List.singleton_append, lexicallyNormal, lexicallyNormal, hhead,
      List.splitOn_append_cons_self, hslash, List.foldl_append, List.foldl_append,
      List.foldl_cons, List.foldl_nil, hskip, foldl_push (q.splitOn slash)]
    rfl
  · rw [if_neg (not_or.mpr ⟨hp, hlast⟩), lexicallyNormal_append hp]

end

end NormalPath

end Rechnernetze.Lib

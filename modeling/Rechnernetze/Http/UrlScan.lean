import Rechnernetze.Http.UrlTheorems
import Rechnernetze.Lib.Scan

/-!
# URLs read without backtracking

`UrlParser::parse` leaves it to two expressions to take a URL apart. `scan` does the same with
plain loops: it says for each text, also for those with line ends and without any form, what the
parts are or why there are none (`url_eq_scan`).
-/

namespace Rechnernetze.Http

open Lib Regex

namespace UrlParser

/-- The host and the path: the host goes on to the first slash behind its first point. -/
def splitParts (s : Bytes) : Option (Bytes × Bytes) := do
  let (name, s) ← cutAt point s
  let (domain, path) ← cutAt slash s
  if OneLine path then some (name ++ point :: domain, path) else none

/-- What is read with the beginning `w`, if that comes to something, or else without. -/
def optionally {β : Type} (w : Bytes) (read : Bytes → Option β) (s : Bytes) : Option β :=
  ((s.dropPrefix? w).bind read).or (read s)

/-- The host and the path behind the optional beginnings. -/
def afterScheme : Bytes → Option (Bytes × Bytes) :=
  optionally (ascii "http://") (optionally (ascii "www.") splitParts)

/-- The first expression: as little as possible is left out before the beginnings. -/
def scanRemote : Bytes → Option (Bytes × Bytes) := firstSplit isAny fun _ s => afterScheme s

/-- A slash and the path. -/
def scanPath : Bytes → Option Bytes
  | [] => none
  | a :: path => if a = slash ∧ OneLine path then some path else none

/-- What follows `localhost`: the digits of the port, none without a port, and the path. -/
def scanPort (s : Bytes) : Option (Bytes × Bytes) :=
  match s with
  | [] => none
  | a :: s' =>
    if a = colon then
      let digits := s'.takeWhile isDigit
      if digits = [] then none else (scanPath (s'.dropWhile isDigit)).map fun path => (digits, path)
    else (scanPath s).map fun path => ([], path)

/-- The second expression. -/
def scanLocal (s : Bytes) : Option (Bytes × Bytes) :=
  (s.dropPrefix? (ascii "localhost")).bind scanPort

/-- `parse`, without expressions. -/
def scan (url : Bytes) : Except Bytes UrlInfo :=
  match scanRemote url, scanLocal url with
  | some (host, path), _ => .ok ⟨host, path, fileNameOf url, none⟩
  | none, some ([], path) => .ok ⟨ascii "localhost", path, fileNameOf url, none⟩
  | none, some (digits, path) =>
    if (decimalValue digits : ℤ) ≤ intMax then
      .ok ⟨ascii "localhost", path, fileNameOf url, some (UInt16.ofNat (decimalValue digits))⟩
    else .error (ascii "stoi")
  | none, none => .error (ascii "url")

section
variable {s t u w h path url digits : Bytes} {c : Captures UInt8}
  {k : Bytes → Captures UInt8 → Option (Captures UInt8)}

/-! ## The first expression -/

theorem splitParts_eq_some_iff :
    splitParts s = some (h, path) ↔
      ∃ t u, point ∉ t ∧ slash ∉ u ∧ OneLine path ∧ t ++ point :: u = h ∧
        h ++ slash :: path = s := by
  unfold splitParts
  simp only [Option.bind_eq_bind, Option.bind_eq_some_iff, Prod.exists, cutAt_eq_some_iff]
  constructor
  · rintro ⟨t, s', ⟨ht, rfl⟩, u, path', ⟨hu, rfl⟩, hsome⟩
    split at hsome
    · rename_i hline
      obtain ⟨rfl, rfl⟩ := Prod.mk.inj (Option.some.inj hsome)
      exact ⟨t, u, ht, hu, hline, rfl, by rw [List.append_assoc, List.cons_append]⟩
    · cases hsome
  · rintro ⟨t, u, ht, hu, hline, rfl, rfl⟩
    exact ⟨t, u ++ slash :: path, ⟨ht, by rw [List.append_assoc, List.cons_append]⟩, u, path,
      ⟨hu, rfl⟩, if_pos hline⟩

/-- The groups of the host and the path. -/
def partsCaptured (c : Captures UInt8) (x : Bytes × Bytes) : Captures UInt8 :=
  Function.update (Function.update c 1 x.1) 2 x.2

theorem partsCaptured_one (x : Bytes × Bytes) : partsCaptured c x 1 = x.1 := rfl

theorem partsCaptured_two (x : Bytes × Bytes) : partsCaptured c x 2 = x.2 := rfl

theorem exec_partsRegex :
    partsRegex.exec s c atEnd = (splitParts s).map (partsCaptured c) := by
  cases hparts : splitParts s with
  | some x =>
    obtain ⟨t, u, ht, hu, hline, hhost, rfl⟩ := splitParts_eq_some_iff.mp hparts
    rw [partsRegex, exec_seq, exec_group, hostRegex, exec_seq, ← hhost, List.append_assoc]
    refine exec_star_greedy_append (fun a ha => decide_eq_true fun heq => ht (heq ▸ ha))
      (fun a ha => ?_) ?_
    · rw [← Option.some.inj ha]
      decide
    rw [exec_seq, List.cons_append, exec_lit_cons]
    refine exec_star_greedy_append (fun a ha => decide_eq_true fun heq => hu (heq ▸ ha))
      (fun a ha => ?_) ?_
    · rw [← Option.some.inj ha]
      decide
    rw [← List.cons_append, ← List.append_assoc, take_length_sub, pathPart_eq hline, hhost]
    rfl
  | none =>
    rw [Option.map_none, Option.eq_none_iff_forall_ne_some]
    intro c' hc'
    -- a match would be a division at the first point and the next slash
    obtain ⟨w, hw, rest, c'', rfl, hend⟩ := exec_eq_some hc'
    rw [(atEnd_eq_some.mp hend).1, List.append_nil] at hparts
    obtain ⟨h, hhost, path, hline, rfl⟩ := mem_language_partsRegex.mp hw
    obtain ⟨t, u, ht, hu, hsplit⟩ := mem_language_hostRegex.mp hhost
    rw [splitParts_eq_some_iff.mpr ⟨t, u, ht, hu, hline, hsplit, rfl⟩] at hparts
    cases hparts

/-- An optional beginning before what is read without search. -/
theorem exec_optionally {r : Regex UInt8} {read : Bytes → Option (Bytes × Bytes)}
    (hr : ∀ s, r.exec s c atEnd = (read s).map (partsCaptured c)) :
    (seq (opt (literal w)) r).exec s c atEnd = (optionally w read s).map (partsCaptured c) := by
  rw [exec_seq, exec_opt_literal, hr, optionally, Option.map_or, Option.map_bind]
  simp only [hr]
  rfl

theorem fullMatch_regex :
    regex.fullMatch url = (scanRemote url).map (partsCaptured fun _ => []) := by
  have hscheme : ∀ s, (seq (opt (literal (ascii "http://")))
      (seq (opt (literal (ascii "www."))) partsRegex)).exec s (fun _ => []) atEnd
        = (afterScheme s).map (partsCaptured fun _ => []) :=
    fun s => exec_optionally fun s => exec_optionally fun s => exec_partsRegex
  rw [fullMatch, regex, exec_seq, anyChar, exec_star_lazy, scanRemote, map_firstSplit]
  exact congrArg (fun f => firstSplit isAny f url) (funext fun _ => funext fun s => hscheme s)

/-! ## The second expression -/

theorem exec_pathPart :
    (seq (lit slash) (group 2 (star true anyChar))).exec s c atEnd
      = (scanPath s).map (Function.update c 2) := by
  cases s with
  | nil => rfl
  | cons a path =>
    rw [scanPath]
    by_cases ha : a = slash
    · by_cases hline : OneLine path
      · rw [if_pos ⟨ha, hline⟩, ha, pathPart_eq hline]
        rfl
      · rw [if_neg fun h => hline h.2, Option.map_none, Option.eq_none_iff_forall_ne_some]
        intro c' hc'
        rw [exec_seq, ha, exec_lit_cons, exec_group, anyChar, exec_star_greedy_eq_some] at hc'
        obtain ⟨w, rest, rfl, hw, hend, -⟩ := hc'
        rw [(atEnd_eq_some.mp hend).1, List.append_nil] at hline
        exact hline (forall_isAny_iff.mp hw)
    · rw [if_neg fun h => ha h.1, exec_seq, exec_lit_cons_of_ne ha]
      rfl

theorem scanPath_digit {a : UInt8} (ha : isDigit a = true) : scanPath (a :: s) = none := by
  refine if_neg fun h => ?_
  rw [h.1] at ha
  exact absurd ha (by decide)

theorem exec_scanPort :
    (seq (opt (seq (lit colon) (group 1 (plus true digit))))
      (seq (lit slash) (group 2 (star true anyChar)))).exec s (fun _ => []) atEnd
        = (scanPort s).map (partsCaptured fun _ => []) := by
  have hempty : Function.update (fun _ => [] : Captures UInt8) 1 [] = fun _ => [] :=
    Function.update_eq_self 1 _
  rw [exec_seq, exec_opt, exec_seq, exec_pathPart]
  cases s with
  | nil => rfl
  | cons a s =>
    rw [scanPort]
    by_cases ha : a = colon
    · -- without a port there is no path behind a colon
      have hpath : scanPath (a :: s) = none := if_neg fun h => by
        rw [ha] at h
        exact absurd h.1 (by decide)
      rw [if_pos ha, hpath, Option.map_none, Option.or_none, ha, exec_lit_cons, exec_group, digit,
        exec_plus_of_refuses fun b rest hb => by rw [exec_pathPart, scanPath_digit hb]; rfl]
      dsimp only
      -- a colon is read as that of a port with at least one digit
      split
      · rfl
      · have htake := take_length_sub (s.takeWhile isDigit) (s.dropWhile isDigit)
        rw [List.takeWhile_append_dropWhile] at htake
        rw [exec_pathPart, Option.map_map, htake]
        rfl
    · rw [if_neg ha, exec_lit_cons_of_ne ha, Option.none_or,
        Option.map_map]
      refine congrArg (fun e => Option.map e (scanPath (a :: s))) (funext fun path => ?_)
      exact congrArg (fun c => Function.update c 2 path) hempty.symm

theorem fullMatch_localhostRegex :
    localhostRegex.fullMatch url = (scanLocal url).map (partsCaptured fun _ => []) := by
  rw [fullMatch, localhostRegex, exec_seq, exec_literal, scanLocal, Option.map_bind]
  exact congrArg (fun f => Option.bind _ f) (funext fun s => exec_scanPort)

/-! ## Where the parts come from -/

theorem subset_append {x : Bytes × Bytes} (hx : x.1 ⊆ s ∧ x.2 ⊆ s) :
    x.1 ⊆ w ++ s ∧ x.2 ⊆ w ++ s :=
  ⟨List.subset_append_of_subset_right _ hx.1, List.subset_append_of_subset_right _ hx.2⟩

theorem splitParts_subset {x : Bytes × Bytes} (hparts : splitParts s = some x) :
    x.1 ⊆ s ∧ x.2 ⊆ s := by
  obtain ⟨h, path⟩ := x
  obtain ⟨t, u, -, -, -, -, rfl⟩ := splitParts_eq_some_iff.mp hparts
  exact ⟨List.subset_append_left _ _,
    fun b hb => List.mem_append_right _ (List.mem_cons_of_mem _ hb)⟩

theorem optionally_subset {read : Bytes → Option (Bytes × Bytes)} {x : Bytes × Bytes}
    (hread : ∀ s x, read s = some x → x.1 ⊆ s ∧ x.2 ⊆ s)
    (hx : optionally w read s = some x) : x.1 ⊆ s ∧ x.2 ⊆ s := by
  rcases Option.or_eq_some_iff.mp hx with hwith | ⟨-, hwithout⟩
  · obtain ⟨rest, hrest, hx'⟩ := Option.bind_eq_some_iff.mp hwith
    obtain ⟨w', rfl, -⟩ := List.dropPrefix?_eq_some_iff.mp hrest
    exact subset_append (hread rest x hx')
  · exact hread s x hwithout

theorem scanRemote_subset {x : Bytes × Bytes} (hx : scanRemote url = some x) :
    x.1 ⊆ url ∧ x.2 ⊆ url := by
  obtain ⟨w, rest, rfl, -, hrest⟩ := firstSplit_eq_some hx
  refine subset_append (optionally_subset (fun s x hx => ?_) hrest)
  exact optionally_subset (fun s x => splitParts_subset) hx

theorem scanPath_subset (hpath : scanPath s = some path) : path ⊆ s := by
  cases s with
  | nil => cases hpath
  | cons a s =>
    rw [scanPath] at hpath
    split at hpath
    · rw [← Option.some.inj hpath]
      exact List.subset_cons_self _ _
    · cases hpath

theorem scanPort_subset (hport : scanPort s = some (digits, path)) : path ⊆ s := by
  cases s with
  | nil => cases hport
  | cons a s =>
    rw [scanPort] at hport
    dsimp only at hport
    split_ifs at hport
    · obtain ⟨path', hpath, heq⟩ := Option.map_eq_some_iff.mp hport
      obtain ⟨-, rfl⟩ := Prod.mk.inj heq
      have hdrop : s.dropWhile isDigit ⊆ s := (List.dropWhile_suffix _).subset
      exact List.subset_cons_of_subset _ fun b hb => hdrop (scanPath_subset hpath hb)
    · obtain ⟨path', hpath, heq⟩ := Option.map_eq_some_iff.mp hport
      obtain ⟨-, rfl⟩ := Prod.mk.inj heq
      exact scanPath_subset hpath

theorem scanLocal_subset (hlocal : scanLocal url = some (digits, path)) : path ⊆ url := by
  obtain ⟨s, hs, hport⟩ := Option.bind_eq_some_iff.mp hlocal
  obtain ⟨w, rfl, -⟩ := List.dropPrefix?_eq_some_iff.mp hs
  exact List.subset_append_of_subset_right _ (scanPort_subset hport)

/-- Nothing stands in the path, or in the host of the first form, that is not in the URL. -/
theorem parts_subset {urlInfo : UrlInfo} (hparse : parse url = .ok urlInfo) :
    (urlInfo.host ⊆ url ∨ urlInfo.host = ascii "localhost") ∧ urlInfo.filePathName ⊆ url := by
  unfold parse at hparse
  rw [fullMatch_regex, fullMatch_localhostRegex] at hparse
  cases hremote : scanRemote url with
  | some x =>
    rw [hremote] at hparse
    rw [← Except.ok.inj hparse]
    exact (scanRemote_subset hremote).imp_left Or.inl
  | none =>
    cases hlocal : scanLocal url with
    | none =>
      rw [hremote, hlocal] at hparse
      cases hparse
    | some x =>
      rw [hremote, hlocal] at hparse
      dsimp only [Option.map_none, Option.map_some, bind, Except.bind] at hparse
      have hpath : x.2 ⊆ url := scanLocal_subset hlocal
      split at hparse
      · rw [← Except.ok.inj hparse]
        exact ⟨Or.inr rfl, hpath⟩
      · split at hparse
        · cases hparse
        · rw [← Except.ok.inj hparse]
          exact ⟨Or.inr rfl, hpath⟩

/-! ## The result -/

theorem isDigit_of_scanLocal (h : scanLocal url = some (digits, path)) :
    ∀ b ∈ digits, isDigit b = true := by
  obtain ⟨s, -, hs⟩ := Option.bind_eq_some_iff.mp h
  unfold scanPort at hs
  split at hs
  · cases hs
  · rename_i a s'
    dsimp only at hs
    split_ifs at hs
    · obtain ⟨path', -, heq⟩ := Option.map_eq_some_iff.mp hs
      rw [← (Prod.mk.inj heq).1]
      exact fun b => List.mem_takeWhile_imp
    · obtain ⟨path', -, heq⟩ := Option.map_eq_some_iff.mp hs
      rw [← (Prod.mk.inj heq).1]
      nofun

/-- The number of a port, as the `unsigned short` that is made of it. -/
theorem portInt_eq (hne : digits ≠ []) (hdigits : ∀ b ∈ digits, isDigit b = true) :
    ((stoi digits).mapError StoiError.what |>.map fun n => some (UInt16.ofInt n))
      = if (decimalValue digits : ℤ) ≤ intMax then .ok (some (UInt16.ofNat (decimalValue digits)))
        else .error (ascii "stoi") := by
  have hshort : UInt16.ofInt (decimalValue digits : ℤ) = UInt16.ofNat (decimalValue digits) := by
    have hmod : ((decimalValue digits : ℤ) % 2 ^ 16).toNat = decimalValue digits % 2 ^ 16 := by
      omega
    rw [UInt16.ofInt, hmod]
    exact UInt16.ofNat_mod_size
  rw [stoi_of_digits hne hdigits, ← hshort]
  split
  · rfl
  · rfl

end

/-- **URLs are read by a plain scan**, whatever the text. -/
theorem url_eq_scan (url : Bytes) : parse url = scan url := by
  unfold parse scan
  rw [fullMatch_regex, fullMatch_localhostRegex]
  cases scanRemote url with
  | some x => rfl
  | none =>
    cases hlocal : scanLocal url with
    | none => rfl
    | some x =>
      obtain ⟨digits, path⟩ := x
      have hport := isDigit_of_scanLocal hlocal
      cases digits with
      | nil => rfl
      | cons b digits =>
        have hint := portInt_eq (List.cons_ne_nil b digits) hport
        simp only [Option.map_none, Option.map_some, partsCaptured_one, partsCaptured_two, hint,
          if_neg (List.cons_ne_nil b digits)]
        split
        · rfl
        · rfl

/-- A path has no line ends, a host may have them. -/
example : scanRemote (ascii "a.b/" ++ lf :: ascii "c.d/e")
    = some (ascii "b/" ++ lf :: ascii "c.d", ascii "e") := by
  decide

end UrlParser

end Rechnernetze.Http

import Rechnernetze.Http.UrlParser

/-!
# What `UrlParser` reads off a URL

The first expression takes everything up to the first point for the beginning of the host, slashes
too. Where the host has a point that is what is wanted (`fullMatch_remote`). The URL of a local
host gets to the second expression only where no slash follows a point
(`parts_recovered_iff`).
-/

namespace Rechnernetze.Http

open Lib Regex

namespace UrlParser

/-- A port as it is written: digits of a number below 65536. -/
structure PortText where
  digits : Bytes
  ne_nil : digits ≠ []
  isDigit : ∀ b ∈ digits, isDigit b = true
  lt : decimalValue digits < 65536

/-- A URL made of its parts. -/
inductive Url where
  /-- `[http://][www.]host/path`. -/
  | remote (http www : Bool) (host path : Bytes) (hpoint : point ∈ host) (hslash : slash ∉ host)
      (hwww : ¬ ascii "www." <+: host) (hpath : OneLine path)
  /-- `localhost/path` or `localhost:port/path`. -/
  | localhost (port : Option PortText) (path : Bytes) (hpath : OneLine path)

namespace Url

/-- `localhost`, with a port or without. -/
def localPart : Option PortText → Bytes
  | none => ascii "localhost"
  | some port => ascii "localhost" ++ colon :: port.digits

def text : Url → Bytes
  | remote http www host path .. =>
    (if http then ascii "http://" else []) ++ ((if www then ascii "www." else [])
      ++ (host ++ slash :: path))
  | localhost port path _ => localPart port ++ slash :: path

def host : Url → Bytes
  | remote _ _ host .. => host
  | localhost .. => ascii "localhost"

def path : Url → Bytes
  | remote _ _ _ path .. => path
  | localhost _ path _ => path

def port : Url → Option UInt16
  | remote .. => none
  | localhost port .. => port.map fun port => UInt16.ofNat (decimalValue port.digits)

end Url

/-- A slash stands somewhere behind a point. -/
def SlashAfterPoint (s : Bytes) : Prop := ∃ a b c, s = a ++ point :: (b ++ slash :: c)

/-- `parse` gives the parts the URL is made of, and as the name of the file what follows its last
slash. -/
def Recovered (url : Url) : Prop :=
  ∃ info before, parse url.text = .ok info ∧ info.host = url.host ∧
    info.filePathName = url.path ∧ info.port = url.port ∧
    url.text = before ++ slash :: info.fileName ∧ slash ∉ info.fileName

section
variable {url s t u w h path input : Bytes} {c c' : Captures UInt8}
  {k : Bytes → Captures UInt8 → Option (Captures UInt8)}

theorem fileNameOf_spec (h : slash ∈ s) :
    ∃ before, s = before ++ slash :: fileNameOf s ∧ slash ∉ fileNameOf s := by
  obtain ⟨behind, before, hs, hbehind⟩ := List.eq_append_cons_of_mem (List.mem_reverse.mpr h)
  have hname : fileNameOf s = behind.reverse := by
    unfold fileNameOf
    rw [hs, takeWhile_ne_append hbehind]
  refine ⟨before.reverse, ?_, ?_⟩
  · rw [hname, ← List.reverse_reverse s, hs, List.reverse_append, List.reverse_cons,
      List.append_assoc, List.singleton_append]
  · rwa [hname, List.mem_reverse]

/-! ## Points and slashes -/

theorem SlashAfterPoint.append_left (h : SlashAfterPoint s) : SlashAfterPoint (t ++ s) := by
  obtain ⟨a, b, c, rfl⟩ := h
  exact ⟨t ++ a, b, c, (List.append_assoc ..).symm⟩

/-- From the first point on. -/
theorem slashAfterPoint_iff (ht : point ∉ t) :
    SlashAfterPoint (t ++ point :: u) ↔ slash ∈ u := by
  constructor
  · rintro ⟨a, b, c, h⟩
    rcases List.append_eq_append_iff.mp h with ⟨e, rfl, he⟩ | ⟨e, rfl, he⟩
    · cases e with
      | nil =>
        obtain ⟨-, rfl⟩ := List.cons.inj he
        simp
      | cons x e =>
        obtain ⟨-, rfl⟩ := List.cons.inj he
        simp
    · cases e with
      | nil =>
        obtain ⟨-, rfl⟩ := List.cons.inj he
        simp
      | cons x e =>
        obtain ⟨rfl, -⟩ := List.cons.inj he
        simp at ht
  · intro h
    obtain ⟨b, c, rfl⟩ := List.append_of_mem h
    exact ⟨t, b, c, rfl⟩

theorem slashAfterPoint_append_iff (ht : point ∉ t) :
    SlashAfterPoint (t ++ s) ↔ SlashAfterPoint s := by
  refine ⟨fun h => ?_, SlashAfterPoint.append_left⟩
  have hpoint : point ∈ s := by
    obtain ⟨a, b, c, h⟩ := h
    have hmem : point ∈ t ++ s := by rw [h]; simp
    exact (List.mem_append.mp hmem).resolve_left ht
  obtain ⟨w, u, rfl, hw⟩ := List.eq_append_cons_of_mem hpoint
  have htw : point ∉ t ++ w := fun h => (List.mem_append.mp h).elim ht hw
  rw [← List.append_assoc, slashAfterPoint_iff htw] at h
  exact (slashAfterPoint_iff hw).mpr h

/-! ## The first expression -/

/-- What follows the prefixes: the host, a slash and the path. -/
def partsRegex : Regex UInt8 :=
  .seq (.group 1 hostRegex) (.seq (.lit slash) (.group 2 (.star true anyChar)))

theorem pathPart_eq (hpath : OneLine path) :
    (seq (lit slash) (group 2 (star true anyChar))).exec (slash :: path) c atEnd
      = some (Function.update c 2 path) := by
  rw [exec_seq, exec_lit_eq_some]
  refine ⟨path, rfl, ?_⟩
  rw [exec_group, ← List.append_nil path, anyChar]
  refine exec_star_greedy_append (forall_isAny_iff.mpr hpath) nofun ?_
  rw [take_length_sub, List.append_nil]
  rfl

/-- A prefix without a slash ends before the first slash. -/
theorem prefix_of_prefix_append (hw : slash ∉ w) (hpre : w <+: h ++ slash :: path) : w <+: h := by
  obtain ⟨e, he⟩ := hpre
  rcases List.append_eq_append_iff.mp he with ⟨e', rfl, -⟩ | ⟨e', rfl, he'⟩
  · exact List.prefix_append ..
  · cases e' with
    | nil => rw [List.append_nil]
    | cons x e' =>
      obtain ⟨rfl, -⟩ := List.cons.inj he'
      simp at hw

theorem not_http_prefix (hpoint : point ∈ h) (hslash : slash ∉ h) :
    ¬ ascii "http://" <+: h ++ slash :: path := by
  rintro ⟨e, he⟩
  have hscheme : h <+: ascii "http:" ++ slash :: (slash :: e) := ⟨slash :: path, he.symm⟩
  have hhost := prefix_of_prefix_append hslash hscheme
  exact absurd (hhost.subset hpoint) (by decide)

theorem partsRegex_eq (hpoint : point ∈ h) (hslash : slash ∉ h) (hpath : OneLine path) :
    partsRegex.exec (h ++ slash :: path) c atEnd
      = some (Function.update (Function.update c 1 h) 2 path) := by
  obtain ⟨h₁, h₂, rfl, hfirst⟩ := List.eq_append_cons_of_mem hpoint
  have hslash₂ : slash ∉ h₂ := fun h => hslash (by simp [h])
  rw [partsRegex, exec_seq, exec_group, hostRegex, exec_seq, List.append_assoc]
  refine exec_star_greedy_append (fun a ha => decide_eq_true fun heq => hfirst (heq ▸ ha))
    (fun a ha => ?_) ?_
  · rw [← Option.some.inj ha]
    decide
  rw [exec_seq, List.cons_append, exec_lit_eq_some]
  refine ⟨h₂ ++ slash :: path, rfl, ?_⟩
  refine exec_star_greedy_append (fun a ha => decide_eq_true fun heq => hslash₂ (heq ▸ ha))
    (fun a ha => ?_) ?_
  · rw [← Option.some.inj ha]
    decide
  rw [← List.cons_append, ← List.append_assoc, take_length_sub]
  exact pathPart_eq hpath

/-- A host with a point is what stands between the prefixes and the next slash. -/
theorem fullMatch_remote {http www : Bool} (hpoint : point ∈ h) (hslash : slash ∉ h)
    (hwww : ¬ ascii "www." <+: h) (hpath : OneLine path) :
    regex.fullMatch ((if http then ascii "http://" else [])
        ++ ((if www then ascii "www." else []) ++ (h ++ slash :: path)))
      = some (Function.update (Function.update (fun _ => []) 1 h) 2 path) := by
  have hparts := partsRegex_eq (c := fun _ => []) hpoint hslash hpath
  have hafterHttp : (seq (opt (literal (ascii "www."))) partsRegex).exec
      ((if www then ascii "www." else []) ++ (h ++ slash :: path)) (fun _ => []) atEnd
        = some (Function.update (Function.update (fun _ => []) 1 h) 2 path) := by
    rw [exec_seq]
    cases www with
    | true => exact exec_opt_literal_append hparts
    | false =>
      rw [exec_opt_literal_neg ?_]
      · exact hparts
      · exact fun hpre => hwww (prefix_of_prefix_append (by decide) hpre)
  rw [fullMatch, regex, exec_seq]
  -- the lazy loop need not take anything
  refine exec_star_lazy_eq_some.mpr ⟨[], _, rfl, nofun, ?_, fun w' e hne he => ?_⟩
  · rw [exec_seq]
    cases http with
    | true => exact exec_opt_literal_append hafterHttp
    | false =>
      rw [exec_opt_literal_neg ?_]
      · exact hafterHttp
      · cases www with
        | true => exact fun ⟨_, he⟩ => absurd (List.cons.inj he).1 (by decide)
        | false => exact not_http_prefix hpoint hslash
  · exact absurd (List.append_eq_nil_iff.mp he).2 hne

theorem mem_language_hostRegex :
    w ∈ hostRegex.language ↔ ∃ t u, point ∉ t ∧ slash ∉ u ∧ t ++ point :: u = w := by
  have hnot : ∀ {a : UInt8} {v : Bytes},
      (∀ b ∈ v, decide (b ≠ a) = true) ↔ a ∉ v := by
    intro a v
    exact ⟨fun h ha => absurd rfl (of_decide_eq_true (h a ha)),
      fun h b hb => decide_eq_true fun heq => h (heq ▸ hb)⟩
  rw [hostRegex, mem_language_seq]
  constructor
  · rintro ⟨t, ht, v, hv, rfl⟩
    obtain ⟨_, ⟨a, ha, rfl⟩, u, hu, rfl⟩ := mem_language_seq.mp hv
    rw [of_decide_eq_true ha]
    exact ⟨t, u, hnot.mp (mem_language_star_char.mp ht), hnot.mp (mem_language_star_char.mp hu),
      rfl⟩
  · rintro ⟨t, u, ht, hu, rfl⟩
    refine ⟨t, mem_language_star_char.mpr (hnot.mpr ht), point :: u, ?_, rfl⟩
    exact mem_language_seq.mpr ⟨[point], mem_language_lit, u,
      mem_language_star_char.mpr (hnot.mpr hu), rfl⟩

theorem mem_language_partsRegex :
    s ∈ partsRegex.language ↔
      ∃ w ∈ hostRegex.language, ∃ path, OneLine path ∧ w ++ slash :: path = s := by
  rw [partsRegex, mem_language_seq]
  constructor
  · rintro ⟨w, hw, v, hv, rfl⟩
    obtain ⟨_, ⟨a, ha, rfl⟩, path, hpath, rfl⟩ := mem_language_seq.mp hv
    have hany : path ∈ (star true (char isAny)).language := hpath
    rw [of_decide_eq_true ha]
    exact ⟨w, hw, path, forall_isAny_iff.mp (mem_language_star_char.mp hany), rfl⟩
  · rintro ⟨w, hw, path, hpath, rfl⟩
    have hany : path ∈ (star true (char isAny)).language :=
      mem_language_star_char.mpr (forall_isAny_iff.mpr hpath)
    exact ⟨w, hw, slash :: path, mem_language_seq.mpr ⟨[slash], mem_language_lit, path, hany, rfl⟩,
      rfl⟩

/-- The expression matches only where a slash follows a point. -/
theorem slashAfterPoint_of_mem_language (h : url ∈ regex.language) : SlashAfterPoint url := by
  obtain ⟨_, -, v₁, hv₁, rfl⟩ := mem_language_seq.mp h
  obtain ⟨_, -, v₂, hv₂, rfl⟩ := mem_language_seq.mp hv₁
  obtain ⟨_, -, v₃, hv₃, rfl⟩ := mem_language_seq.mp hv₂
  obtain ⟨w, hw, path, -, rfl⟩ := mem_language_partsRegex.mp hv₃
  obtain ⟨t, u, -, -, rfl⟩ := mem_language_hostRegex.mp hw
  have hparts : SlashAfterPoint (t ++ point :: u ++ slash :: path) :=
    ⟨t, u, path, by rw [List.append_assoc, List.cons_append]⟩
  exact hparts.append_left.append_left.append_left

theorem mem_language_of_slashAfterPoint (hline : OneLine url) (h : SlashAfterPoint url) :
    url ∈ regex.language := by
  have hpoint : point ∈ url := by
    obtain ⟨a, b, c, rfl⟩ := h
    simp
  obtain ⟨t, u, rfl, ht⟩ := List.eq_append_cons_of_mem hpoint
  obtain ⟨b, path, rfl, hb⟩ := List.eq_append_cons_of_mem ((slashAfterPoint_iff ht).mp h)
  have hpath : OneLine path :=
    ⟨fun h => hline.1 (by simp [h]), fun h => hline.2 (by simp [h])⟩
  have hparts : t ++ point :: (b ++ slash :: path) ∈ partsRegex.language :=
    mem_language_partsRegex.mpr ⟨t ++ point :: b, mem_language_hostRegex.mpr ⟨t, b, ht, hb, rfl⟩,
      path, hpath, by rw [List.append_assoc, List.cons_append]⟩
  -- the prefixes and the loop before them match nothing
  refine mem_language_seq.mpr ⟨[], mem_language_star_char.mpr nofun, _, ?_, rfl⟩
  refine mem_language_seq.mpr ⟨[], mem_language_opt.mpr (Or.inr rfl), _, ?_, rfl⟩
  exact mem_language_seq.mpr ⟨[], mem_language_opt.mpr (Or.inr rfl), _, hparts, rfl⟩

/-- The host has a point. -/
theorem point_mem_of_fullMatch (h : regex.fullMatch url = some c) : point ∈ c 1 := by
  rw [fullMatch, regex, exec_seq] at h
  obtain ⟨_, -, rest, c₁, -, h⟩ := exec_eq_some h
  rw [exec_seq] at h
  obtain ⟨_, -, rest, c₁, -, h⟩ := exec_eq_some h
  rw [exec_seq] at h
  obtain ⟨_, -, rest, c₁, -, h⟩ := exec_eq_some h
  rw [exec_seq, exec_group] at h
  obtain ⟨w, hw, rest, c₁, rfl, h⟩ := exec_eq_some h
  rw [take_length_sub] at h
  obtain ⟨rest', c₂, hmem, hend⟩ := exists_mem_run h
  obtain ⟨-, rfl⟩ := atEnd_eq_some.mp hend
  rw [captures_of_mem_run hmem (by decide), Function.update_self]
  obtain ⟨t, u, -, -, rfl⟩ := mem_language_hostRegex.mp hw
  simp

/-! ## The second expression -/

theorem fullMatch_localhost (port : Option PortText) (hpath : OneLine path) :
    ∃ c, localhostRegex.fullMatch (Url.localPart port ++ slash :: path) = some c ∧
      c 1 = (port.map PortText.digits).getD [] ∧ c 2 = path := by
  rw [fullMatch, localhostRegex, exec_seq]
  cases port with
  | none =>
    refine ⟨Function.update (fun _ => []) 2 path, exec_literal_eq_some.mpr ⟨_, rfl, ?_⟩, rfl, rfl⟩
    have hnone : ∀ k : Bytes → Captures UInt8 → Option (Captures UInt8),
        (seq (lit colon) (group 1 (plus true digit))).exec (slash :: path) (fun _ => []) k
          = none := by
      intro k
      rw [exec_seq, lit, exec_char_cons, if_neg (by decide)]
    rw [exec_seq, exec_opt, hnone, Option.none_or]
    exact pathPart_eq hpath
  | some port =>
    refine ⟨Function.update (Function.update (fun _ => []) 1 port.digits) 2 path, ?_, rfl, rfl⟩
    rw [Url.localPart, List.append_assoc]
    refine exec_literal_eq_some.mpr ⟨_, rfl, ?_⟩
    obtain ⟨a, t, hdigits⟩ := List.exists_cons_of_ne_nil port.ne_nil
    have hall := port.isDigit
    rw [hdigits] at hall
    -- the digits end where the slash begins
    have hport : (seq (lit colon) (group 1 (plus true digit))).exec
        (colon :: (port.digits ++ slash :: path)) (fun _ => [])
        (fun rest c => (seq (lit slash) (group 2 (star true anyChar))).exec rest c atEnd)
        = some (Function.update (Function.update (fun _ => []) 1 port.digits) 2 path) := by
      rw [exec_seq, exec_lit_eq_some]
      refine ⟨_, rfl, ?_⟩
      rw [exec_group, plus, exec_seq, digit, hdigits, List.cons_append, exec_char_cons,
        if_pos (hall a (List.mem_cons_self ..))]
      refine exec_star_greedy_append (fun b hb => hall b (List.mem_cons_of_mem _ hb))
        (fun b hb => ?_) ?_
      · rw [← Option.some.inj hb]
        decide
      · rw [← List.cons_append, take_length_sub]
        exact pathPart_eq hpath
    rw [List.cons_append, exec_seq, exec_opt, hport, Option.some_or]

theorem notMem_digits (port : PortText) {b : UInt8} (hb : isDigit b = false) :
    b ∉ port.digits := by
  intro hmem
  rw [port.isDigit b hmem] at hb
  cases hb

/-- Neither a point nor the end of a line stands before the path. -/
theorem localPart_plain (port : Option PortText) :
    point ∉ Url.localPart port ++ [slash] ∧ OneLine (Url.localPart port ++ [slash]) := by
  have hnot : ∀ b, isDigit b = false → b ∉ ascii "localhost" ++ colon :: [slash] →
      b ∉ Url.localPart port ++ [slash] := by
    intro b hb hfixed hmem
    cases port with
    | none => exact hfixed (by simp_all [Url.localPart])
    | some port =>
      have hdigits := notMem_digits port hb
      exact hfixed (by simp_all [Url.localPart])
  exact ⟨hnot point (by decide) (by decide), hnot cr (by decide) (by decide),
    hnot lf (by decide) (by decide)⟩

theorem parse_localhost (port : Option PortText) (hpath : OneLine path)
    (hnone : regex.fullMatch (Url.localPart port ++ slash :: path) = none) :
    parse (Url.localPart port ++ slash :: path)
      = .ok ⟨ascii "localhost", path, fileNameOf (Url.localPart port ++ slash :: path),
          port.map fun port => UInt16.ofNat (decimalValue port.digits)⟩ := by
  obtain ⟨c, hc, hport, hc2⟩ := fullMatch_localhost port hpath
  unfold parse
  rw [hnone, hc]
  dsimp only
  rw [hport, hc2]
  cases port with
  | none => rfl
  | some port =>
    -- a port fits an `unsigned short`, and so an `int`
    have hint : (decimalValue port.digits : ℤ) ≤ intMax := by
      have hlt := port.lt
      unfold intMax
      omega
    have hstoi := stoi_of_digits port.ne_nil port.isDigit
    rw [if_pos hint] at hstoi
    have hshort : UInt16.ofInt (decimalValue port.digits)
        = UInt16.ofNat (decimalValue port.digits) := by
      have hlt := port.lt
      have hmod : ((decimalValue port.digits : ℤ) % 2 ^ 16).toNat = decimalValue port.digits := by
        omega
      rw [UInt16.ofInt, hmod]
    rw [Option.map_some, Option.getD_some, if_neg port.ne_nil, hstoi, Option.map_some, ← hshort]
    rfl

theorem text_localhost (port : Option PortText) (hpath : OneLine path) :
    (Url.localhost port path hpath).text = (Url.localPart port ++ [slash]) ++ path := by
  rw [Url.text, List.append_assoc, List.singleton_append]

theorem slashAfterPoint_localhost_iff (port : Option PortText) (hpath : OneLine path) :
    SlashAfterPoint (Url.localhost port path hpath).text ↔ SlashAfterPoint path := by
  rw [text_localhost]
  exact slashAfterPoint_append_iff (localPart_plain port).1

theorem recovered_localhost (port : Option PortText) (hpath : OneLine path)
    (hfree : ¬ SlashAfterPoint path) : Recovered (.localhost port path hpath) := by
  have hnone : regex.fullMatch (Url.localPart port ++ slash :: path) = none := by
    by_contra hsome
    have hmem := fullMatch_isSome_iff.mp (Option.isSome_iff_ne_none.mpr hsome)
    exact hfree ((slashAfterPoint_localhost_iff port hpath).mp
      (slashAfterPoint_of_mem_language hmem))
  have hmem : slash ∈ Url.localPart port ++ slash :: path := by simp
  obtain ⟨before, hbefore, hname⟩ := fileNameOf_spec hmem
  exact ⟨_, before, parse_localhost port hpath hnone, rfl, rfl, rfl, hbefore, hname⟩

/-- The host of a match of the first expression has a point, `localhost` has none. -/
theorem not_recovered_localhost (port : Option PortText) (hpath : OneLine path)
    (hmistaken : SlashAfterPoint path) : ¬ Recovered (.localhost port path hpath) := by
  rintro ⟨info, before, hparse, hhost, -⟩
  obtain ⟨-, hcr, hlf⟩ := localPart_plain port
  have hline : OneLine (Url.localhost port path hpath).text := by
    rw [text_localhost]
    exact ⟨fun h => (List.mem_append.mp h).elim hcr hpath.1,
      fun h => (List.mem_append.mp h).elim hlf hpath.2⟩
  -- the first expression is tried first, and matches
  have hmatch := fullMatch_isSome_iff.mpr (mem_language_of_slashAfterPoint hline
    ((slashAfterPoint_localhost_iff port hpath).mpr hmistaken))
  obtain ⟨c, hc⟩ := Option.isSome_iff_exists.mp hmatch
  have hpoint := point_mem_of_fullMatch hc
  unfold parse at hparse
  rw [hc] at hparse
  rw [← Except.ok.inj hparse] at hhost
  rw [show c 1 = ascii "localhost" from hhost] at hpoint
  exact absurd hpoint (by decide)

theorem recovered_remote {http www : Bool} (hpoint : point ∈ h) (hslash : slash ∉ h)
    (hwww : ¬ ascii "www." <+: h) (hpath : OneLine path) :
    Recovered (.remote http www h path hpoint hslash hwww hpath) := by
  have hmem : slash ∈ (Url.remote http www h path hpoint hslash hwww hpath).text := by
    simp [Url.text]
  obtain ⟨before, hbefore, hname⟩ := fileNameOf_spec hmem
  refine ⟨⟨h, path, _, none⟩, before, ?_, rfl, rfl, rfl, hbefore, hname⟩
  unfold parse
  rw [Url.text, fullMatch_remote hpoint hslash hwww hpath]
  rfl

end

/-- The URL of a local host in whose path a slash stands behind a point. -/
def Url.Mistaken : Url → Prop
  | remote .. => False
  | localhost _ path _ => SlashAfterPoint path

/-- **The parts of a URL are recovered**, but for the URLs of a local host that the first
expression matches. -/
theorem parts_recovered_iff (url : Url) : Recovered url ↔ ¬ url.Mistaken := by
  cases url with
  | remote http www h path hpoint hslash hwww hpath =>
    exact ⟨fun _ => id, fun _ => recovered_remote hpoint hslash hwww hpath⟩
  | localhost port path hpath =>
    exact ⟨fun hrecovered hmistaken => not_recovered_localhost port hpath hmistaken hrecovered,
      recovered_localhost port hpath⟩

/-- The path `a.b/c` on a local host: the host is `localhost/a.b` then. -/
theorem path_taken_for_host : ¬ ∀ url : Url, Recovered url := by
  intro h
  have hpath : OneLine (ascii "a.b/c") := by decide
  exact not_recovered_localhost none hpath ⟨ascii "a", ascii "b", ascii "c", rfl⟩ (h _)

end UrlParser

end Rechnernetze.Http

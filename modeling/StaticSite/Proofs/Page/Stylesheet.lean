import StaticSite.Page.Site
import StaticSite.Proofs.Path.Extension
import StaticSite.Proofs.Path.Folded
import StaticSite.Proofs.Path.Straight

namespace StaticSite

namespace Path

theorem ofText_of_relative {s : String} (h : (ofText s).isAbsolute = false) :
    ofText s = ⟨false, segmentsOf s.toList⟩ := by
  unfold ofText at h ⊢
  split
  · next heq => simp [heq] at h
  · rfl

theorem filterMap_segmentsOf (cs : List Char) :
    (segmentsOf cs).filterMap Component.ofSegment? =
      (Text.pieces '/' cs).filterMap fun piece => Component.ofSegment? (String.ofList piece) := by
  cases cs with
  | nil => simp [segmentsOf, Text.pieces, Text.piecesFrom, Component.ofSegment?]
  | cons c cs => simp only [segmentsOf, List.filterMap_map, Function.comp_def]

def climb (n : Nat) : String := String.join (List.replicate n "../")

section Climb

variable (n : Nat) {s : String}

theorem toList_climb_succ (cs : List Char) :
    (climb (n + 1)).toList ++ cs = '.' :: '.' :: '/' :: ((climb n).toList ++ cs) := by
  simp [climb, List.replicate_succ]

theorem pieces_climb (cs : List Char) :
    Text.pieces '/' ((climb n).toList ++ cs) =
      List.replicate n ['.', '.'] ++ Text.pieces '/' cs := by
  induction n with
  | zero => simp [climb]
  | succ n ih =>
    rw [toList_climb_succ, List.replicate_succ, List.cons_append, ← ih]
    rfl

theorem isAbsolute_climb (h : (ofText s).isAbsolute = false) :
    (ofText (climb n ++ s)).isAbsolute = false := by
  cases n with
  | zero => simpa [climb] using h
  | succ n =>
    unfold ofText
    rw [String.toList_append, toList_climb_succ]
    rfl

theorem filterMap_climb (h : (ofText s).isAbsolute = false) :
    (ofText (climb n ++ s)).segments.filterMap Component.ofSegment? =
      List.replicate n .up ++ (ofText s).segments.filterMap Component.ofSegment? := by
  have hups : (List.replicate n ['.', '.']).filterMap
      (fun piece => Component.ofSegment? (String.ofList piece)) = List.replicate n .up :=
    List.filterMap_replicate_of_some (by decide)
  rw [ofText_of_relative h, ofText_of_relative (isAbsolute_climb n h)]
  simp only [filterMap_segmentsOf, String.toList_append, pieces_climb, List.filterMap_append]
  rw [hups]

end Climb

section Names

variable {init : List String} {last : String}

theorem components_names (h : ∀ n ∈ init, IsFileName n) :
    (ofNames init).components = init.map .name := by
  rw [components_ofNames (not_dot_mem h)]
  induction init with
  | nil => rfl
  | cons n ns ih =>
    rw [List.forall_mem_cons] at h
    rw [List.filterMap_cons_some h.1.ofSegment?_eq, ih h.2, List.map_cons]

theorem parent?_ofNames (h : ∀ n ∈ init, IsFileName n)
    (hlast : (Component.ofSegment? last).isSome) :
    (ofNames (init ++ [last])).parent? = some (ofNames init) := by
  have hstops : (ofNames (init ++ [last])).StopsAt init last 0 := ⟨rfl, by simp [isMeant, hlast]⟩
  obtain ⟨q, blanks, hparent, rfl, hblanks, -⟩ := hstops.parent?
  have hnil : blanks = [] := List.eq_nil_iff_forall_not_mem.mpr fun s hs => by
    simpa [(h s (List.mem_append_right _ hs)).ofSegment?_eq] using hblanks s hs
  have hrelative : q.isAbsolute = false := (parent?_precedes hparent).isAbsolute_eq
  rw [hparent, hnil, List.append_nil, ofNames, ← hrelative]

end Names

end Path

namespace Shell

variable {init : List String} {last : String}

theorem href_ofNames (s : Shell) (h : ∀ n ∈ init, IsFileName n)
    (hlast : (Component.ofSegment? last).isSome) :
    s.href (.ofNames (init ++ [last])) = Path.climb init.length ++ s.stylesheet := by
  have hdepth : ((init.map Component.name).filter isName).length = init.length := by
    rw [List.filter_eq_self.mpr, List.length_map]
    simp [isName]
  unfold href
  rw [Path.parent?_ofNames h hlast]
  simp only [Path.components_names h, hdepth]
  rfl

theorem output_ofNames {p : PageSource} (hp : p.relative = .ofNames (init ++ [last]))
    (h : ∀ n ∈ init, IsFileName n) (hlast : IsFileName last) :
    ∃ name, (Component.ofSegment? name).isSome ∧ p.output = .ofNames (init ++ [name]) := by
  rw [PageSource.output, hp]
  obtain hup | ⟨stem, hstem, hname⟩ :=
    Path.withExtension_concat h hlast (show "html" ≠ "" by decide) (by decide)
  · exact ⟨"..", by decide, hup⟩
  · exact ⟨_, by simp [hstem.ofSegment?_eq], hname⟩

/-- The link of a document, seen from the directory of that document, leads where the style sheet is
written: the steps up lead out of all directories of the document, and no further. -/
theorem href_reaches (s : Shell) {p : PageSource} (hp : p.relative = .ofNames (init ++ [last]))
    (h : ∀ n ∈ init, IsFileName n) (hlast : IsFileName last)
    (hsheet : (Path.ofText s.stylesheet).isAbsolute = false) :
    ∃ dir, p.output.parent? = some dir ∧
      (dir.join (.ofText (s.href p.output))).folded = (Path.ofText s.stylesheet).folded ∧
      ∀ (out : Path) (cwd place : Place), out.normalize? cwd = some place →
        (out.join (dir.join (.ofText (s.href p.output)))).normalize? cwd =
          (out.join (.ofText s.stylesheet)).normalize? cwd := by
  obtain ⟨name, hname, hout⟩ := output_ofNames hp h hlast
  have hlink : (Path.ofText (Path.climb init.length ++ s.stylesheet)).isAbsolute = false :=
    Path.isAbsolute_climb _ hsheet
  have hfolded : ((Path.ofNames init).join (.ofText (s.href p.output))).folded =
      (Path.ofText s.stylesheet).folded := by
    rw [hout, s.href_ofNames h hname, Path.folded_join _ hlink,
      Path.foldl_foldOnto_components _ _ hlink, Path.filterMap_climb _ hsheet, List.foldl_append,
      Path.folded, Path.components_names h, Component.foldl_foldOnto_names,
      Component.foldl_foldOnto_replicate, Path.folded_eq, if_neg (by simp [hsheet])]
  refine ⟨.ofNames init, ?_, hfolded, fun out cwd place hplace => ?_⟩
  · rw [hout, Path.parent?_ofNames h hname]
  · refine Path.normalize?_join_of_folded hplace ?_ hsheet hfolded
    rw [hout, s.href_ofNames h hname, Path.isAbsolute_join _ hlink]
    rfl

def shared : Shell where
  project := "Kit"
  lang := "en"
  stylesheet := "css/./../../shared/main.css"

def guide : PageSource where
  relative := .ofNames ["docs", "guide", "intro.yaml"]
  decl := { title := "Guide", root := { fragment := some "shell" } }

theorem href_reaches_shared :
    (∀ n ∈ ["docs", "guide"], IsFileName n) ∧ IsFileName "intro.yaml" ∧
      (Path.ofText shared.stylesheet).isAbsolute = false ∧
      shared.href guide.output = "../../css/./../../shared/main.css" ∧
      ∃ dir, guide.output.parent? = some dir ∧
        (dir.join (.ofText (shared.href guide.output))).folded =
          [.up, .name "shared", .name "main.css"] := by
  have hnames : ∀ n ∈ ["docs", "guide"], IsFileName n := by decide +kernel
  have hlast : IsFileName "intro.yaml" := by decide +kernel
  have hsheet : (Path.ofText shared.stylesheet).isAbsolute = false := by decide +kernel
  obtain ⟨dir, hdir, hfolded, -⟩ := href_reaches shared (p := guide) rfl hnames hlast hsheet
  refine ⟨hnames, hlast, hsheet, by decide +kernel, dir, hdir, hfolded.trans ?_⟩
  decide +kernel

end Shell

end StaticSite

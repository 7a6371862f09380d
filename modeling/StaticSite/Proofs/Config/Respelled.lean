import StaticSite.Proofs.Config.Output
import StaticSite.Proofs.Path.Folded
import StaticSite.Proofs.Path.Respelled

namespace StaticSite

structure ProjectPaths.Respelled (ps qs : ProjectPaths) : Prop where
  tokens : ps.tokens.Respelled qs.tokens
  pages : ps.pages.Respelled qs.pages
  fragments : List.Forall₂ Path.Respelled ps.fragments qs.fragments
  styles : ps.styles.Respelled qs.styles
  utilities : ps.utilities.Respelled qs.utilities
  fonts : ps.fonts.Respelled qs.fonts
  assets : ps.assets.Respelled qs.assets
  output : ps.output.Respelled qs.output

namespace Config

structure Respelled (c c' : Config) : Prop where
  others : c' = { c with root := c'.root, paths := c'.paths }
  root : c.root.Respelled c'.root
  paths : c.paths.Respelled c'.paths

theorem place_eq {p q : Path} (h : p.LeadsAs q) (cwd : Place) :
    Config.place cwd q = Config.place cwd p := by
  rw [Config.place, Config.place, h.normalize?_eq]

theorem forM_checkSource_eq {ps qs : List Path} (h : List.Forall₂ Path.LeadsAs ps qs)
    (cwd out : Place) : qs.forM (checkSource cwd out) = ps.forM (checkSource cwd out) := by
  induction h with
  | nil => rfl
  | cons hpq _ ih =>
    simp only [List.forM_eq_forM, List.forM_cons] at ih ⊢
    rw [ih, checkSource, checkSource, place_eq hpq]

namespace Respelled

variable {c c' : Config} (h : c.Respelled c')
include h

theorem resolve {p q : Path} (hpq : p.Respelled q) : (c.resolve p).LeadsAs (c'.resolve q) :=
  h.root.leadsAs.join hpq.leadsAs

theorem fragments : List.Forall₂ Path.LeadsAs c.fragments c'.fragments := by
  unfold Config.fragments
  rw [List.forall₂_map_left_iff, List.forall₂_map_right_iff]
  exact h.paths.fragments.imp fun _ _ => h.resolve

theorem sources : List.Forall₂ Path.LeadsAs c.sources c'.sources := by
  refine .cons (h.resolve h.paths.fonts) (List.rel_append h.fragments ?_)
  exact .cons (h.resolve h.paths.pages) <| .cons (h.resolve h.paths.styles) <|
    .cons (h.resolve h.paths.utilities) <| .cons (h.resolve h.paths.assets) .nil

theorem checkOutput_eq (cwd : Place) : c'.checkOutput cwd = c.checkOutput cwd := by
  have hsources := forM_checkSource_eq h.sources cwd
  unfold checkOutput
  rw [place_eq h.root.leadsAs, output, tokens, place_eq (h.resolve h.paths.output),
    place_eq (h.resolve h.paths.tokens)]
  simp only [hsources]
  rfl

theorem validate_eq (cwd : Place) : c'.validate cwd = c.validate cwd := by
  have hname : c'.name = c.name := by rw [h.others]
  have hsheet : c'.checkStylesheet = c.checkStylesheet := by rw [h.others]; rfl
  rw [validate, validate, hname, hsheet, h.checkOutput_eq]

end Respelled

end Config

/-- Seen from a working directory `w`, every path that is not empty has one normal form: an absolute
path without dots, to which the components of `w` and of the path fold. A normal form is its own, and
another spelling of a path has the same. So a configuration is as valid, or as little, however its
paths are spelled. -/
theorem Path.normalize?_canonical {w : Path} (hw : w.isAbsolute = true) {cwd : Place}
    (hcwd : w.normalize? [] = some cwd) :
    (∀ p : Path, p.isEmpty = false → ∃ place : Place, p.normalize? cwd = some place ∧
      (w.join p).folded = place.components ∧ (Place.path place).components = place.components ∧
      ∀ cwd' : Place, (Place.path place).normalize? cwd' = some place ∧
        (w.join p).normalize? cwd' = some place) ∧
    (∀ p q : Path, p.Respelled q → q.normalize? cwd = p.normalize? cwd) ∧
    ∀ c c' : Config, c.Respelled c' → c'.validate cwd = c.validate cwd := by
  refine ⟨fun p hp => ?_, fun p q h => h.leadsAs.normalize?_eq cwd, fun c c' h => h.validate_eq cwd⟩
  obtain rfl := Option.some.inj ((normalize?_of_isAbsolute hw []).symm.trans hcwd)
  obtain ⟨hjoin, hplace⟩ := foldl_join_absolute hw p
  have hnames : ∀ n ∈ (w.join p).segments.foldl Place.follow [],
      Component.ofSegment? n = some (.name n) := Place.forall_foldl_follow nofun
  refine ⟨_, normalize?_eq_some_iff.mpr ⟨hp, hplace.symm⟩, folded_of_isAbsolute hjoin,
    Place.components_path hnames, fun cwd' => ⟨?_, normalize?_of_isAbsolute hjoin cwd'⟩⟩
  -- A way down through names alone leads to the place with these names.
  rw [normalize?_of_isAbsolute rfl]
  exact congrArg some (Place.foldl_follow_names hnames [])

namespace Config

def kit : Config where
  name := "Kit"
  paths := { output := .ofNames ["..", "site"] }
  root := .ofNames ["kit"]

def kitRespelled : Config :=
  { kit with
    root := .ofNames ["kit", "x", ".."]
    paths := { kit.paths with output := .ofNames ["..", ".", "site"] } }

theorem kit_respelled : kit.Respelled kitRespelled where
  others := rfl
  root := .single (@Path.Inserts.detour false ["kit"] [] "x" rfl (by decide))
  paths :=
    { tokens := .refl, pages := .refl, fragments := .cons .refl (.cons .refl .nil), styles := .refl
      utilities := .refl, fonts := .refl, assets := .refl
      output := .single (@Path.Inserts.here false [".."] ["site"] rfl) }

end Config

theorem Path.normalize?_canonical_kit :
    (Path.ofText "/home/../work").isAbsolute = true ∧
      (Path.ofText "/home/../work").normalize? [] = some ["work"] ∧
      (∃ place : Place, (Path.ofText "../../a/./b/..").normalize? ["work"] = some place ∧
        (Place.path place).components = [.root, .name "a"]) ∧
      Config.kit.Respelled Config.kitRespelled ∧ Config.kitRespelled.validate ["work"] = .ok () := by
  have hw : (Path.ofText "/home/../work").isAbsolute = true := by decide +kernel
  have hcwd : (Path.ofText "/home/../work").normalize? [] = some ["work"] := by decide +kernel
  obtain ⟨hnormal, -, hvalid⟩ := Path.normalize?_canonical hw hcwd
  refine ⟨hw, hcwd, ?_, Config.kit_respelled, ?_⟩
  · obtain ⟨place, hplace, hfolded, hcomponents, -⟩ :=
      hnormal (.ofText "../../a/./b/..") (by decide +kernel)
    refine ⟨place, hplace, ?_⟩
    rw [hcomponents, ← hfolded]
    decide +kernel
  · rw [hvalid _ _ Config.kit_respelled]
    decide +kernel

end StaticSite

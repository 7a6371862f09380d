import StaticSite.Proofs.Html.Inert
import StaticSite.Proofs.Page.Documents
import StaticSite.Proofs.Render.Contract

namespace StaticSite

def Fragment.Escapes (f : Fragment) : Prop :=
  ∃ t, f.body = .template t ∧ ∀ x pos, Node.output (.reference x) true pos ∉ Template.nodesParts t.nodes

def Registry.HasText (r : Registry) (s : String) : Prop :=
  ∃ f ∈ r.fragments, ∃ t, f.body = .template t ∧ .text s ∈ Template.nodesParts t.nodes

/-- What stands in markup beside the text nodes of templates: values and attributes. -/
inductive Html.Written : String → Prop
  | text {s : String} : Inert s.toList → Written s
  | bare {name : String} : isAttributeName name = true → Written (" " ++ name)
  | valued {name value : String} : isAttributeName name = true → Inert value.toList →
      Written (" " ++ name ++ "=\"" ++ value ++ "\"")

theorem Html.Written.no_bracket {s : String} (h : Written s) {c : Char} (hc : c = '<' ∨ c = '>') :
    c ∉ s.toList := by
  have hinert : ∀ {v : String}, Inert v.toList → c ∉ v.toList := by
    intro v hv hcv
    have := hv.no_delimiter c hcv
    rcases hc with rfl | rfl <;> simp at this
  have hname : ∀ {name}, isAttributeName name = true → c ∉ name.toList := fun h =>
    not_mem_of_isAttributeName h (by rcases hc with rfl | rfl <;> decide)
  have hspace : c ≠ ' ' := by rcases hc with rfl | rfl <;> decide
  have hequals : c ≠ '=' := by rcases hc with rfl | rfl <;> decide
  have hquote : c ≠ '"' := by rcases hc with rfl | rfl <;> decide
  cases h with
  | text hs => exact hinert hs
  | bare h => simp [hname h, hspace]
  | valued h hv => simp [hname h, hinert hv, hspace, hequals, hquote]

def Pieced (P : String → Prop) (s : String) : Prop :=
  ∃ pieces : List String, s = String.join pieces ∧ ∀ p ∈ pieces, P p

namespace Pieced

variable {P : String → Prop}

theorem empty : Pieced P "" := ⟨[], by simp, by simp⟩

theorem of {s : String} (h : P s) : Pieced P s := ⟨[s], by simp, by simpa using h⟩

theorem append {s s' : String} (h : Pieced P s) (h' : Pieced P s') : Pieced P (s ++ s') := by
  obtain ⟨ps, rfl, hps⟩ := h
  obtain ⟨qs, rfl, hqs⟩ := h'
  refine ⟨ps ++ qs, by simp, fun p hp => ?_⟩
  exact (List.mem_append.mp hp).elim (hps p) (hqs p)

theorem mono {Q : String → Prop} {s : String} (h : Pieced P s) (hPQ : ∀ p, P p → Q p) :
    Pieced Q s := by
  obtain ⟨ps, rfl, hps⟩ := h
  exact ⟨ps, rfl, fun p hp => hPQ p (hps p hp)⟩

theorem join {ss : List String} (h : ∀ s ∈ ss, Pieced P s) : Pieced P (String.join ss) := by
  induction ss with
  | nil => simpa using empty
  | cons s ss ih =>
    rw [String.join_cons]
    rw [List.forall_mem_cons] at h
    exact h.1.append (ih h.2)

end Pieced

theorem Html.Attributes.pieced {as : Attributes} {P : String → Prop}
    (hP : ∀ {s}, Written s → P s) (h : ∀ a ∈ as, isAttributeName a.1 = true) : Pieced P as.text := by
  apply Pieced.join
  intro s hs
  obtain ⟨⟨name, value⟩, ha, rfl⟩ := List.mem_map.mp hs
  have hname := h _ ha
  cases value with
  | none => exact .of (hP (.bare hname))
  | some v => exact .of (hP (.valued hname (inert_escape v)))

theorem Scope.invoke_meets_of_forall {s : Scope σ} {render : Renderer} {I : Slot × σ → Prop}
    {Q : String → Prop} {E : RenderStop → Prop} {F : RenderError → Prop} (hE : ∀ e, E e)
    {props : Props} {q : Option (Producer (Slot × σ))}
    (h : ∀ f ∈ s.registry.fragments, (render (Slot × σ) f props q).Meets I Q F) (name : String) :
    (s.invoke render name props q).Meets I Q E := by
  by_cases hd : name ∈ s.fragment.dependencies
  · cases hf : s.registry.find? name with
    | none =>
      rw [invoke_unknown hd hf]
      exact Run.meets_fail (hE _)
    | some f => exact invoke_meets hd hf (fun _ _ => hE _) (h f (Registry.mem_of_find? hf))
  · rw [invoke_undeclared hd]
    exact Run.meets_fail (hE _)

namespace Registry

variable {r : Registry}

abbrev Makes (r : Registry) : String → Prop := Pieced fun s => r.HasText s ∨ Html.Written s

theorem makes_escape (s : String) : r.Makes (Html.escape s) :=
  .of (.inr (.text (Html.inert_escape s)))

theorem nodeMeets_makes {f : Fragment} (hf : f ∈ r.fragments) {t : Template}
    (ht : f.body = .template t)
    (hraw : ∀ x pos, Node.output (.reference x) true pos ∉ Template.nodesParts t.nodes)
    {render : Renderer}
    (hrender : ∀ g ∈ r.fragments, g.Meets render r.Makes fun _ => True) {I : σ → Prop}
    {props : Props} {q : Option (Producer σ)}
    (hq : ∀ p ∈ q, p.Meets (Run.SlotMeets r.Makes (fun _ => True) I) r.Makes fun _ => True)
    {n : Node} (hn : n ∈ Template.nodesParts t.nodes) :
    Scope.NodeMeets render t (r.scope f props q) (Run.SlotMeets r.Makes (fun _ => True) I) r.Makes
      (fun _ => True) (fun _ => True) n := by
  cases n with
  | text text => exact .of (.inl ⟨f, hf, t, ht, hn⟩)
  | output what raw pos =>
    intro rounds
    cases what with
    | reference x =>
      cases raw with
      | true => exact absurd hn (hraw x pos)
      | false =>
        rw [Scope.output]
        split
        · exact Run.meets_pure .empty
        · split
          · exact Run.meets_fail trivial
          · exact Run.meets_pure (makes_escape _)
    | children =>
      have hchildren := Scope.children_meets (s := r.scope f props q) (Q := r.Makes) (E := fun _ => True) .empty
        (fun _ _ => trivial) hq
      exact hchildren.mapError fun _ _ => trivial
    | classes => exact Run.meets_pure (makes_escape _)
    | accessible =>
      exact Run.meets_pure
        (Html.Attributes.pieced .inr fun _ => Html.isAttributeName_of_mem_accessible)
    | attributes =>
      exact Run.meets_pure (Html.Attributes.pieced .inr fun _ => Html.isAttributeName_of_mem_extra)
  | cond test negate yes no pos => trivial
  | each source body no pos => exact fun outer => Scope.rounds_ends fun _ => trivial
  | invoke call block pos =>
    refine ⟨fun rounds => Scope.callProps_ends fun _ _ => trivial, fun inner block hblock => ?_⟩
    have hinvoke := Scope.invoke_meets_of_forall (s := r.scope f props q) (E := fun _ => True)
      (fun _ => trivial) (fun g hg => hrender g hg _ _ inner block hblock) call.name
    exact hinvoke.mapError fun _ _ => trivial

theorem renderWithin_makes (h : ∀ f ∈ r.fragments, f.Escapes) (layers : Nat) :
    ∀ f ∈ r.fragments, f.Meets (r.renderWithin renderTooDeep layers) r.Makes fun _ => True := by
  induction layers with
  | zero => exact fun f _ σ I props q _ => Run.meets_fail trivial
  | succ layers ih =>
    intro f hf
    obtain ⟨t, ht, hraw⟩ := h f hf
    exact renderLayer_meets (E := fun _ => True) ht
      (fun _ _ _ => ⟨.empty, .append, fun _ => trivial⟩)
      fun σ I props q hq n hn => nodeMeets_makes hf ht hraw ih hq hn

end Registry

theorem PageTree.render_makes {r : Registry} (h : ∀ f ∈ r.fragments, f.Escapes) {t : PageTree r}
    {html : String} (ht : (t.render ()).result = .ok html) : r.Makes html := by
  have hmeets := t.render_meets (Registry.renderWithin_makes h r.size) .empty .append
    (fun _ => Registry.makes_escape _) Unit fun _ => True
  obtain ⟨-, hend⟩ := hmeets () trivial
  rw [ht] at hend
  exact hend

namespace Shell

def frame : List String :=
  ["<!DOCTYPE html>\n", "<html lang=\"", "\">\n", "<head>\n<meta charset=\"utf-8\">\n",
   "<meta name=\"viewport\" content=\"width=device-width, initial-scale=1\">\n", "<title>",
   "</title>\n", "<meta name=\"description\" content=\"", "<link rel=\"stylesheet\" href=\"",
   "</head>\n<body>\n", "\n", "</body>\n</html>\n"]

section Pieces

variable {P : String → Prop} (hframe : ∀ p ∈ frame, P p) (hescape : ∀ s, P (Html.escape s))
include hframe

theorem pieced_endLine {body : String} (hbody : Pieced P body) : Pieced P (endLine body) := by
  unfold endLine
  split
  · exact hbody
  · exact hbody.append (.of (hframe "\n" (by decide +kernel)))

include hescape

theorem pieced_descriptionTag (d : Option String) : Pieced P (descriptionTag d) := by
  cases d with
  | none => exact .empty
  | some d =>
    have hopen := Pieced.of (hframe "<meta name=\"description\" content=\"" (by decide +kernel))
    have hclose := Pieced.of (hframe "\">\n" (by decide +kernel))
    exact (hopen.append (.of (hescape d))).append hclose

theorem pieced_document (s : Shell) (p : PageSource) {body : String} (hbody : Pieced P body) :
    Pieced P (s.document p body) := by
  have hfixed : ∀ {s}, s ∈ frame → Pieced P s := fun h => .of (hframe _ h)
  have hvalue : ∀ s, Pieced P (Html.escape s) := fun s => .of (hescape s)
  unfold document
  refine (hfixed ?_).append (hfixed ?_) |>.append (hvalue _) |>.append (hfixed ?_)
    |>.append (hfixed ?_) |>.append (hfixed ?_) |>.append (hfixed ?_) |>.append (hvalue _)
    |>.append (hfixed ?_) |>.append (pieced_descriptionTag hframe hescape _) |>.append (hfixed ?_)
    |>.append (hvalue _) |>.append (hfixed ?_) |>.append (hfixed ?_)
    |>.append (pieced_endLine hframe hbody) |>.append (hfixed ?_)
  all_goals decide +kernel

end Pieces

/-- Where no template writes a value as it is, a document is put together from what all documents
have in common, text nodes of templates, inert text and attributes of inert values. So what props,
texts and page data hold opens no tag and closes none. -/
theorem renderAll_pieced (r : Registry) (h : ∀ f ∈ r.fragments, f.Escapes) (s : Shell)
    (pages : List PageSource) (race : Race) (docs : List (Path × String))
    (hdocs : s.renderAll r pages race = .ok docs) :
    ∀ doc ∈ docs, ∃ pieces : List String, doc.2 = String.join pieces ∧
      (∀ p ∈ pieces, p ∈ frame ∨ r.HasText p ∨ Html.Written p) ∧
      ∀ p ∈ pieces, '<' ∈ p.toList ∨ '>' ∈ p.toList → p ∈ frame ∨ r.HasText p := by
  intro doc hdoc
  obtain ⟨p, -, t, html, -, hhtml, rfl⟩ := renderAll_mem hdocs hdoc
  have hbody := (PageTree.render_makes h hhtml).mono (Q := fun p => p ∈ frame ∨ r.HasText p ∨ _) fun _ => .inr
  obtain ⟨pieces, heq, hpieces⟩ := pieced_document (fun _ => .inl)
    (fun v => .inr (.inr (.text (Html.inert_escape v)))) s p hbody
  refine ⟨pieces, heq, hpieces, fun p hp hangle => ?_⟩
  obtain hp | hp | hp := hpieces p hp
  · exact .inl hp
  · exact .inr hp
  · exact absurd hangle (not_or.mpr ⟨hp.no_bracket (.inl rfl), hp.no_bracket (.inr rfl)⟩)

def mark : Fragment where
  name := "mark"
  body := .template ⟨"mark", [.text "<i", .output .attributes false ⟨1, 3⟩, .text ">",
    .output (.reference ⟨"label", .scope, ["label"]⟩) false ⟨1, 16⟩, .text "</i>"]⟩

def markPage : PageSource where
  relative := ⟨false, ["a.yaml"]⟩
  decl := {
    title := "A & B"
    root := {
      fragment := some "mark"
      props := [("label", .string "<b>"), ("attrs", .map [("title", .string "\""), ("x>", .bool true)])] } }

theorem renderAll_pieced_mark :
    let r : Registry := ({} : Registry).add mark
    let s : Shell := { project := "", lang := "en", stylesheet := "main.css" }
    let doc := s.document markPage "<i title=\"&quot;\">&lt;b&gt;</i>"
    (∀ f ∈ r.fragments, f.Escapes) ∧ s.renderAll r [markPage] = .ok [(⟨false, ["a.html"]⟩, doc)] ∧
      ∃ pieces : List String, doc = String.join pieces ∧
        (∀ p ∈ pieces, p ∈ frame ∨ r.HasText p ∨ Html.Written p) ∧
        ∀ p ∈ pieces, '<' ∈ p.toList ∨ '>' ∈ p.toList → p ∈ frame ∨ r.HasText p := by
  intro r s doc
  have hfs : ∀ f ∈ r.fragments, f.Escapes := by
    intro f hf
    obtain rfl := List.mem_singleton.mp hf
    exact ⟨_, rfl, by simp [Template.nodesParts, Template.nodeParts]⟩
  have hdocs : s.renderAll r [markPage] = .ok [(⟨false, ["a.html"]⟩, doc)] := by decide +kernel
  exact ⟨hfs, hdocs, renderAll_pieced r hfs s _ _ _ hdocs _ List.mem_cons_self⟩

end Shell

end StaticSite

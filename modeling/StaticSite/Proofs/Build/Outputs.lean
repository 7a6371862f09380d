import StaticSite.Proofs.Build.Confined
import StaticSite.Proofs.Build.Run

namespace StaticSite

namespace Asset

variable {cwd place : Place} {d : Disk} {source target : Path} {f f' : Path × ByteArray}

theorem mem_copies (hd : d.SoundAt cwd) (htarget : target.normalize? cwd = some place)
    (hf : f ∈ copies d source target) :
    ∃ names, (∀ n ∈ names, IsFileName n) ∧ (names, f.2) ∈ d.filesBelow source ∧
      f.1 = target.join (.ofNames names) ∧ f.1.normalize? cwd = some (place ++ names) := by
  obtain ⟨g, hg, rfl⟩ := List.mem_map.mp hf
  obtain ⟨file, hfile, rfl⟩ := List.mem_map.mp hg
  have hmem := List.mem_of_mem_filter hfile
  have hnames := Disk.names_of_mem_filesBelow hd.2 hmem
  exact ⟨file.1, hnames, hmem, rfl, Path.normalize?_join_ofNames htarget hnames⟩

theorem spelled_of_mem_copies (hd : d.SoundAt cwd) (htarget : target.normalize? cwd = some place)
    (hspelled : target.Spelled) (hf : f ∈ copies d source target) : f.1.Spelled := by
  obtain ⟨names, hnames, -, hpath, -⟩ := mem_copies hd htarget hf
  exact hpath ▸ hspelled.join (Path.spelled_ofNames hnames)

theorem outlasts_copies (hd : d.SoundAt cwd) (htarget : target.normalize? cwd = some place)
    (hf : f ∈ copies d source target) : Work.Outlasts cwd f (copies d source target) := by
  intro f' hf' hsame
  obtain ⟨names, -, hmem, -, hplace⟩ := mem_copies hd htarget hf
  obtain ⟨names', -, hmem', -, hplace'⟩ := mem_copies hd htarget hf'
  rw [hplace, hplace'] at hsame
  obtain rfl := List.append_cancel_left (Option.some.inj hsame)
  exact Disk.eq_of_mem_filesBelow hd.2 hmem' hmem

end Asset

namespace Config

theorem stylesheet_segments {c : Config} {cwd : Place} (hvalid : c.validate cwd = .ok ()) :
    ∃ init last, (Path.ofText c.stylesheet).segments = init ++ [last] ∧
      Component.ofSegment? last = some (.name last) ∧ ".css".toList <:+ last.toList := by
  obtain ⟨hrelative, hsuffix⟩ := checkStylesheet_of_validate hvalid
  obtain ⟨init, last, hsegments, hlast⟩ :=
    Path.exists_last_segment hrelative (by decide) (by decide) hsuffix
  refine ⟨init, last, hsegments, ?_, hlast⟩
  have hlength := hlast.length_le
  refine Component.ofSegment?_name_iff.mpr ⟨?_, ?_, ?_⟩ <;>
  · rintro rfl
    exact absurd hlength (by decide)

section Places

variable {c : Config} {cwd out : Place} (hout : c.output.normalize? cwd = some out)
include hout

theorem declarationsPath_place :
    c.declarationsPath.normalize? cwd = some (out ++ ["css", "tokens.css"]) := by
  rw [declarationsPath_eq]
  exact Path.normalize?_join_ofNames hout (by decide +kernel)

theorem assetTarget_place : c.assetTarget.normalize? cwd = some (out ++ ["assets"]) := by
  rw [assetTarget, show Path.ofText "assets" = .ofNames ["assets"] by decide +kernel]
  exact Path.normalize?_join_ofNames hout (by decide +kernel)

theorem fontTarget_place : c.fontTarget.normalize? cwd = some (out ++ ["fonts"]) := by
  rw [fontTarget, show Path.ofText "fonts" = .ofNames ["fonts"] by decide +kernel]
  exact Path.normalize?_join_ofNames hout (by decide +kernel)

theorem stylesheetPath_place (hvalid : c.validate cwd = .ok ()) :
    ∃ above last, ".css".toList <:+ last.toList ∧
      c.stylesheetPath.normalize? cwd = some (above ++ [last]) := by
  obtain ⟨init, last, hsegments, hname, hlast⟩ := stylesheet_segments hvalid
  refine ⟨init.foldl Place.follow out, last, hlast, ?_⟩
  rw [stylesheetPath, Path.normalize?_join hout (checkStylesheet_of_validate hvalid).1, hsegments,
    List.foldl_append]
  exact congrArg some (Place.follow_of_name hname)

end Places

namespace Run

variable {c : Config} {d d' : Disk} (r : c.Run d d')

include r in
theorem outputAt : ∃ out, c.OutputAt d.cwd out :=
  outputAt_of_validate (validate_of_clean r.clean_eq)

section Sound

variable (hd : d.files.WellFormed) (hspelled : c.output.Spelled)
include hd hspelled

theorem cleaned_sound : r.cleaned.SoundAt d.cwd := by
  obtain ⟨out, hout⟩ := r.outputAt
  have hmeets := clean_meets (Work.keeps_soundAt d.cwd hspelled)
    (fun d' hd' => hd'.1 ▸ hout.output) d ⟨rfl, hd⟩
  rw [r.clean_eq] at hmeets
  exact hmeets.1

theorem styled_sound : r.styled.SoundAt d.cwd :=
  have hdeclared := Work.writeFile_sound (hspelled.join (Path.spelled_ofText _)) r.declared_eq
    (r.cleaned_sound hd hspelled)
  Work.writeFile_sound (hspelled.join (Path.spelled_ofText _)) r.styled_eq hdeclared

theorem exists_page_of_mem_documents {doc : Path × String} (hdoc : doc ∈ r.documents) :
    ∃ p : PageSource, p.Named ∧ doc.1 = p.output := by
  obtain ⟨p, hp, t, html, -, -, rfl⟩ := Shell.renderAll_mem r.documents_eq hdoc
  exact ⟨p, PageSource.named_of_mem_loadAll (r.styled_sound hd hspelled).2 r.pages_eq hp, rfl⟩

theorem paged_sound : r.paged.SoundAt d.cwd := by
  refine Work.writeAll_sound ?_ r.paged_eq (r.styled_sound hd hspelled)
  refine List.forall_mem_map.mpr fun doc hdoc => ?_
  obtain ⟨p, hp, heq⟩ := r.exists_page_of_mem_documents hd hspelled hdoc
  rw [documentFile, heq]
  exact hspelled.join hp.spelled_output

theorem filled_sound : r.filled.SoundAt d.cwd := by
  obtain ⟨out, hout⟩ := r.outputAt
  have htarget : c.assetTarget.Spelled := hspelled.join (Path.spelled_ofText _)
  exact Work.writeAll_sound (fun f hf => Asset.spelled_of_mem_copies (r.paged_sound hd hspelled)
    (assetTarget_place hout.output) htarget hf) r.filled_eq (r.paged_sound hd hspelled)

theorem document_place {out : Place} (hout : c.output.normalize? d.cwd = some out)
    {doc : Path × String} (hdoc : doc ∈ r.documents) :
    ∃ names stem, (∀ n ∈ names ++ [stem ++ "." ++ "html"], IsFileName n) ∧
      doc.1 = .ofNames (names ++ [stem ++ "." ++ "html"]) ∧
      (c.documentFile doc).1.normalize? d.cwd = some (out ++ (names ++ [stem ++ "." ++ "html"])) := by
  obtain ⟨p, hp, heq⟩ := r.exists_page_of_mem_documents hd hspelled hdoc
  obtain ⟨names, hnames, hup | ⟨stem, hstem, hname⟩⟩ := hp.output_cases
  · obtain ⟨place, hfind, hfile⟩ := Work.find_of_writeAll r.paged_eq (List.mem_map_of_mem hdoc)
    obtain ⟨start, hsegments⟩ := c.output.join_ofNames_concat names ".."
    rw [documentFile, heq, hup] at hfind
    rw [Disk.file?, (Disk.hasDir_of_find_up hsegments hfind).file?_eq_none] at hfile
    cases hfile
  · have hall : ∀ n ∈ names ++ [stem ++ "." ++ "html"], IsFileName n :=
      List.forall_mem_append.mpr ⟨hnames, by simpa using hstem⟩
    refine ⟨names, stem, hall, heq.trans hname, ?_⟩
    rw [documentFile, heq, hname]
    exact Path.normalize?_join_ofNames hout hall

theorem copy_place {out : Place} (hout : c.output.normalize? d.cwd = some out)
    {f : Path × ByteArray} (hf : f ∈ r.copies) :
    ∃ folder names, folder ≠ "css" ∧ f.1.normalize? d.cwd = some (out ++ folder :: names) := by
  obtain hf | hf := List.mem_append.mp hf
  · obtain ⟨names, -, -, -, hplace⟩ :=
      Asset.mem_copies (r.paged_sound hd hspelled) (assetTarget_place hout) hf
    exact ⟨"assets", names, by decide, by simpa using hplace⟩
  · obtain ⟨names, -, -, -, hplace⟩ :=
      Asset.mem_copies (r.filled_sound hd hspelled) (fontTarget_place hout) hf
    exact ⟨"fonts", names, by decide, by simpa using hplace⟩

theorem outlasts_copies {f : Path × ByteArray} (hf : f ∈ r.copies) :
    Work.Outlasts d.cwd f r.copies := by
  obtain ⟨out, hout⟩ := r.outputAt
  have hassets := assetTarget_place hout.output
  have hfonts := fontTarget_place hout.output
  have hpaged := r.paged_sound hd hspelled
  have hfilled := r.filled_sound hd hspelled
  have hfolders : ∀ a ∈ Asset.copies r.paged c.assets c.assetTarget,
      ∀ b ∈ Asset.copies r.filled c.fonts c.fontTarget,
      a.1.normalize? d.cwd ≠ b.1.normalize? d.cwd := by
    intro a ha b hb hsame
    obtain ⟨names, -, -, -, ha⟩ := Asset.mem_copies hpaged hassets ha
    obtain ⟨names', -, -, -, hb⟩ := Asset.mem_copies hfilled hfonts hb
    simp [ha, hb] at hsame
  obtain hf | hf := List.mem_append.mp hf
  · exact (Asset.outlasts_copies hpaged hassets hf).append fun b hb hsame =>
      absurd hsame.symm (hfolders f hf b hb)
  · refine Work.Outlasts.append (fun a ha hsame => ?_) (Asset.outlasts_copies hfilled hfonts hf)
    exact absurd hsame (hfolders a ha f hf)

theorem outlasts_documents {doc : Path × String} (hdoc : doc ∈ r.documents) :
    Work.Outlasts d.cwd (c.documentFile doc) (r.documents.map c.documentFile) := by
  obtain ⟨out, hout⟩ := r.outputAt
  refine List.forall_mem_map.mpr fun doc' hdoc' hsame => ?_
  obtain ⟨names, stem, -, hpath, hplace⟩ := r.document_place hd hspelled hout.output hdoc
  obtain ⟨names', stem', -, hpath', hplace'⟩ := r.document_place hd hspelled hout.output hdoc'
  rw [hplace, hplace'] at hsame
  have hpaths : doc'.1 = doc.1 := by
    rw [hpath, hpath', List.append_cancel_left (Option.some.inj hsame)]
  have hnodup : (r.documents.map fun doc => doc.1.components).Nodup :=
    List.pairwise_map.mpr (Shell.pairwise_of_renderAll r.documents_eq)
  rw [List.inj_on_of_nodup_map hnodup hdoc' hdoc (congrArg Path.components hpaths)]

theorem css_outlasts_documents {p : Path} (content : ByteArray) {above : Place} {last : String}
    (hcss : ".css".toList <:+ last.toList) (hp : p.normalize? d.cwd = some (above ++ [last])) :
    Work.Outlasts d.cwd (p, content) (r.documents.map c.documentFile) := by
  obtain ⟨out, hout⟩ := r.outputAt
  refine List.forall_mem_map.mpr fun doc hdoc hsame => ?_
  obtain ⟨names, stem, -, -, hplace⟩ := r.document_place hd hspelled hout.output hdoc
  rw [hp, hplace, ← List.append_assoc] at hsame
  obtain ⟨-, hlast⟩ := List.append_inj' (Option.some.inj hsame) rfl
  obtain ⟨start, hstart⟩ := hcss
  have hends : (stem ++ "." ++ "html").toList = start ++ ".css".toList := by
    rw [hstart, (List.cons.inj hlast).1]
  simpa using congrArg List.getLast? hends

theorem declarations_outlast_copies (content : ByteArray) :
    Work.Outlasts d.cwd (c.declarationsPath, content) r.copies := by
  obtain ⟨out, hout⟩ := r.outputAt
  intro f hf hsame
  obtain ⟨folder, names, hfolder, hplace⟩ := r.copy_place hd hspelled hout.output hf
  rw [hplace, declarationsPath_place hout.output] at hsame
  have hcons := List.append_cancel_left (Option.some.inj hsame)
  exact absurd (List.cons.inj hcons).1 hfolder

include r in
theorem cwd_eq : d'.cwd = d.cwd :=
  (Work.writeAll_evolves r.writeAll_outputs).cwd_eq.trans (r.cleaned_sound hd hspelled).1

theorem read_of_outlasts {before os : List (Path × ByteArray)} (heq : r.outputs = before ++ os)
    {p : Path} {content : ByteArray} (ho : (p, content) ∈ os)
    (hlasts : Work.Outlasts d.cwd (p, content) os) : d'.read p = .ok content := by
  have hwrites := r.writeAll_outputs
  rw [heq] at hwrites
  exact Work.read_of_writeAll hwrites ho (r.cwd_eq hd hspelled ▸ hlasts)

theorem file?_eq_styled {out : Place} (hout : c.output.normalize? d.cwd = some out) {place : Place}
    (hplace : ¬place.Below out) : d'.file? place = r.styled.file? place := by
  have hwrites := Work.writeAll_append r.paged_eq (Work.writeAll_append r.filled_eq r.done_eq)
  refine (Work.writeAll_evolves hwrites).file?_eq place ?_
  rintro ⟨o, ho, hfind⟩
  have hfound := Disk.normalize?_of_find hfind
  rw [r.cwd_eq hd hspelled] at hfound
  refine hplace ?_
  obtain ho | ho := List.mem_append.mp ho
  · obtain ⟨doc, hdoc, rfl⟩ := List.mem_map.mp ho
    obtain ⟨names, stem, -, -, hdocument⟩ := r.document_place hd hspelled hout hdoc
    obtain rfl := Option.some.inj (hdocument.symm.trans hfound)
    exact Place.below_append (by simp)
  · obtain ⟨folder, names, -, hcopy⟩ := r.copy_place hd hspelled hout ho
    obtain rfl := Option.some.inj (hcopy.symm.trans hfound)
    exact Place.below_append (by simp)

theorem read_copy {f : Path × ByteArray} (hf : f ∈ r.copies) : d'.read f.1 = .ok f.2 :=
  r.read_of_outlasts hd hspelled (List.append_assoc _ _ _).symm hf
    (r.outlasts_copies hd hspelled hf)

theorem outlasts_copies_of_read {o : Path × ByteArray} (h : d'.read o.1 = .ok o.2) :
    Work.Outlasts d.cwd o r.copies := by
  intro f hf hsame
  rw [← r.cwd_eq hd hspelled] at hsame
  exact Disk.read_unique (r.read_copy hd hspelled hf) h hsame

theorem read_document_iff {doc : Path × String} (hdoc : doc ∈ r.documents) :
    d'.read (c.documentFile doc).1 = .ok (c.documentFile doc).2 ↔
      Work.Outlasts d.cwd (c.documentFile doc) r.copies := by
  refine ⟨r.outlasts_copies_of_read hd hspelled, fun hcopies => ?_⟩
  exact r.read_of_outlasts hd hspelled rfl (List.mem_append_left _ (List.mem_map_of_mem hdoc))
    ((r.outlasts_documents hd hspelled hdoc).append hcopies)

theorem read_stylesheet_iff :
    d'.read c.stylesheetPath = .ok r.sheet.toUTF8 ↔
      Work.Outlasts d.cwd (c.stylesheetPath, r.sheet.toUTF8) r.copies := by
  refine ⟨fun h => r.outlasts_copies_of_read hd hspelled h, fun hcopies => ?_⟩
  obtain ⟨out, hout⟩ := r.outputAt
  obtain ⟨above, last, hcss, hplace⟩ :=
    stylesheetPath_place hout.output (validate_of_clean r.clean_eq)
  have hdocuments := r.css_outlasts_documents hd hspelled r.sheet.toUTF8 hcss hplace
  have houtputs : r.outputs = [(c.declarationsPath, r.declarations.toUTF8)] ++
      ([(c.stylesheetPath, r.sheet.toUTF8)] ++ (r.documents.map c.documentFile ++ r.copies)) := rfl
  exact r.read_of_outlasts hd hspelled houtputs List.mem_cons_self
    ((Work.outlasts_self _ _).append (hdocuments.append hcopies))

theorem read_declarations_iff :
    d'.read c.declarationsPath = .ok r.declarations.toUTF8 ↔
      Work.Outlasts d.cwd (c.declarationsPath, r.declarations.toUTF8)
        [(c.stylesheetPath, r.sheet.toUTF8)] := by
  obtain ⟨out, hout⟩ := r.outputAt
  have hplace := declarationsPath_place hout.output
  constructor
  · -- Where the style sheet has the place of the declarations, no copy has it, so that it is read.
    intro h o ho hsame
    obtain rfl := List.mem_singleton.mp ho
    have hsheet := (r.read_stylesheet_iff hd hspelled).mpr fun f hf hf' =>
      r.declarations_outlast_copies hd hspelled r.sheet.toUTF8 f hf (hf'.trans hsame)
    rw [← r.cwd_eq hd hspelled] at hsame
    exact Disk.read_unique hsheet h hsame
  · intro hsheet
    rw [List.append_cons] at hplace
    have hdocuments :=
      r.css_outlasts_documents hd hspelled r.declarations.toUTF8 (by decide) hplace
    have houtputs : r.outputs = [] ++ ([(c.declarationsPath, r.declarations.toUTF8)] ++
        ([(c.stylesheetPath, r.sheet.toUTF8)] ++ (r.documents.map c.documentFile ++ r.copies))) := rfl
    exact r.read_of_outlasts hd hspelled houtputs List.mem_cons_self
      ((Work.outlasts_self _ _).append
        (hsheet.append (hdocuments.append (r.declarations_outlast_copies hd hspelled _))))

end Sound

end Run

/-- All copies are there after a build that succeeds, and what they are copies of has not changed. A
document and the style sheet are there unless a copy of another content has the same place, and the
declarations of the tokens are there unless the style sheet has their place. -/
theorem build_outputs {c : Config} {race : Race} {d d' : Disk} {report : BuildReport}
    (hd : d.files.WellFormed) (hspelled : c.output.Spelled) (h : c.build race d = (.ok report, d')) :
    ∃ r : c.Run d d', r.report = report ∧
      (∀ f ∈ r.copies, d'.read f.1 = .ok f.2) ∧
      (∀ out place, c.output.normalize? d.cwd = some out → ¬place.Below out →
        d'.file? place = r.styled.file? place) ∧
      (∀ doc ∈ r.documents, d'.read (c.output.join doc.1) = .ok doc.2.toUTF8 ↔
        Work.Outlasts d.cwd (c.documentFile doc) r.copies) ∧
      (d'.read c.stylesheetPath = .ok r.sheet.toUTF8 ↔
        Work.Outlasts d.cwd (c.stylesheetPath, r.sheet.toUTF8) r.copies) ∧
      (d'.read c.declarationsPath = .ok r.declarations.toUTF8 ↔
        Work.Outlasts d.cwd (c.declarationsPath, r.declarations.toUTF8)
          [(c.stylesheetPath, r.sheet.toUTF8)]) := by
  obtain ⟨r, hreport⟩ := exists_run_of_build h
  exact ⟨r, hreport, fun f hf => r.read_copy hd hspelled hf,
    fun out place hout => r.file?_eq_styled hd hspelled hout,
    fun doc hdoc => r.read_document_iff hd hspelled hdoc, r.read_stylesheet_iff hd hspelled,
    r.read_declarations_iff hd hspelled⟩

theorem build_outputs_small :
    smallDisk.files.WellFormed ∧ small.output.Spelled ∧
      ∃ report d', small.build .inOrder smallDisk = (.ok report, d') ∧
        ∃ r : small.Run smallDisk d', r.report = report ∧
          d'.read small.declarationsPath = .ok r.declarations.toUTF8 := by
  have hok : (small.build .inOrder smallDisk).1.isOk := by decide +kernel
  have hplaces : small.stylesheetPath.normalize? smallDisk.cwd ≠
      small.declarationsPath.normalize? smallDisk.cwd := by decide +kernel
  refine ⟨smallDisk_wellFormed, small_spelled, ?_⟩
  cases hbuild : small.build .inOrder smallDisk with
  | mk result d' =>
    rw [hbuild] at hok
    cases result with
    | error e => cases hok
    | ok report =>
      obtain ⟨r, hreport, -, -, -, -, hdeclarations⟩ :=
        build_outputs smallDisk_wellFormed small_spelled hbuild
      refine ⟨report, d', rfl, r, hreport, hdeclarations.mpr fun o ho hsame => ?_⟩
      obtain rfl := List.mem_singleton.mp ho
      exact absurd hsame hplaces

def smallClash : Config := { small with stylesheet := "css/tokens.css" }

theorem build_loses_declarations :
    smallClash.validate smallDisk.cwd = .ok () ∧ smallDisk.files.WellFormed ∧
      (smallClash.build .inOrder smallDisk).1.isOk ∧
      (TokenSet.load smallDisk smallClash.tokens).toOption.map (smallClash.tokenStyle.css ·) =
        some (.ok ":root \x7b\n\x7d\n") ∧
      (smallClash.build .inOrder smallDisk).2.file? ["site", "dist", "css", "tokens.css"] ≠
        some ":root \x7b\n\x7d\n".toUTF8 := by
  refine ⟨by decide +kernel, smallDisk_wellFormed, by decide +kernel, by decide +kernel, ?_⟩
  decide +kernel

end Config

end StaticSite

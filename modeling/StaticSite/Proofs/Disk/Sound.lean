import StaticSite.Proofs.Disk.Writes

namespace StaticSite

def Disk.SoundAt (cwd : Place) (d : Disk) : Prop := d.cwd = cwd ∧ d.files.WellFormed

namespace Work

theorem keeps_soundAt (cwd : Place) {p : Path} (hp : p.Spelled) :
    Keeps (Disk.SoundAt cwd) p :=
  (keeps_cwd cwd p).and (keeps_wellFormed hp)

theorem writeFile_below_meets {cwd out place : Place} {dir : Path} {names : List String}
    {content : ByteArray} (hspelled : dir.Spelled) (hdir : dir.normalize? cwd = some place)
    (hbelow : Place.Below (place ++ names) out) (hnames : ∀ n ∈ names, IsFileName n) :
    (writeFile (dir.join (.ofNames names)) content).Meets (Disk.SoundAt cwd) (·.Below out)
      (fun _ => False) fun _ => True := by
  refine writeFile_meets (keeps_soundAt cwd (hspelled.join (Path.spelled_ofNames hnames))) ?_
  intro d found hd hfind _
  have hfound := Disk.normalize?_of_find hfind
  rw [hd.1, Path.normalize?_join_ofNames hdir hnames] at hfound
  obtain rfl := Option.some.inj hfound
  exact hbelow

theorem writeFile_sound {cwd : Place} {p : Path} {content : ByteArray} {d d' : Disk}
    (hp : p.Spelled) (h : writeFile p content d = (.ok (), d')) (hd : d.SoundAt cwd) :
    d'.SoundAt cwd := by
  have hkeeps := keeps_soundAt cwd hp
  have hsound : (writeFile p content d).2.SoundAt cwd :=
    writeFile_keeps hd hkeeps.makeDir (hkeeps.write content)
  rwa [h] at hsound

theorem writeAll_sound {cwd : Place} {os : List (Path × ByteArray)} {d d' : Disk}
    (hos : ∀ o ∈ os, o.1.Spelled) (h : writeAll os d = (.ok (), d')) (hd : d.SoundAt cwd) :
    d'.SoundAt cwd := by
  induction os generalizing d with
  | nil =>
    cases h
    exact hd
  | cons o os ih =>
    rw [List.forall_mem_cons] at hos
    obtain ⟨d₁, ho, hrest⟩ := writeAll_cons_eq_ok h
    exact ih hos.2 hrest (writeFile_sound hos.1 ho hd)

end Work

end StaticSite

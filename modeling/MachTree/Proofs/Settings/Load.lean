import MachTree.Proofs.Activity
import MachTree.Settings.File

/-! How a tree's own settings are read: without a file there are none, and a file is refused when
it is no settings file or when a command in it cannot be cut into words. -/
namespace MachTree
namespace Settings

open Activity

variable {host : Host} {j : Journal} {root : Path} {ini ini' : Ini}

def bytesAt (host : Host) (j : Journal) (root : Path) : List UInt8 :=
  ((host.filesAfter j).read? host.cwd (root.child fileName)).getD []

/-- That a tree has settings, which are empty without a file. -/
inductive Holds (host : Host) (j : Journal) (root : Path) : Ini → Prop
  | missing : host.files.isFile host.cwd (root.child fileName) = .ok false → Holds host j root {}
  | file {ini : Ini} : host.files.isFile host.cwd (root.child fileName) = .ok true →
      ofBytes (.file (root.child fileName)) (bytesAt host j root) = .ok ini → Holds host j root ini

/-- Why the settings of a tree cannot be used. -/
inductive Unusable (host : Host) (j : Journal) (root : Path) : Prop
  | ini {reason : Ini.Error} : host.files.isFile host.cwd (root.child fileName) = .ok true →
      ofBytes (.file (root.child fileName)) (bytesAt host j root) = .error (.ini reason) →
      Unusable host j root
  | command {ini : Ini} {e : Error} : Holds host j root ini →
      ({ root, ini } : Settings).validate = .error e → Unusable host j root

/-- The faults that reading the settings of a tree leads to. -/
inductive Faults (host : Host) (j : Journal) (root : Path) : Fault → Prop
  | name {n : Files.NameTooLong} :
      host.files.isFile host.cwd (root.child fileName) = .error n →
      Faults host j root (.nameTooLong n.path)
  | undecodable {reason : Utf8.Error} :
      host.files.isFile host.cwd (root.child fileName) = .ok true →
      ofBytes (.file (root.child fileName)) (bytesAt host j root) = .error (.undecodable reason) →
      Faults host j root (.undecodable reason)

theorem Holds.unique (h : Holds host j root ini) (h' : Holds host j root ini') : ini = ini' := by
  cases h <;> cases h' <;> simp_all

/-- How reading the settings of a tree ends. -/
inductive LoadRun (host : Host) (j : Journal) (root : Path) : Except (Halt Error) Settings → Prop
  | faults {f : Fault} : Faults host j root f → LoadRun host j root (.error (.fault f))
  | unusable {e : Error} : Unusable host j root → LoadRun host j root (.error (.failed e))
  | holds {ini : Ini} : Holds host j root ini →
      ({ root, ini } : Settings).validate = .ok () → LoadRun host j root (.ok { root, ini })

/-- What is left to do with the settings of a tree is to look at the commands in them. -/
def check (root : Path) (ini : Ini) : Activity Error Settings := do
  Activity.ofExcept id ({ root, ini } : Settings).validate
  pure { root, ini }

theorem perform_check (root : Path) (ini : Ini) (host : Host) (j : Journal) :
    (check root ini).perform host j =
      match ({ root, ini } : Settings).validate with
      | .ok () => (.ok { root, ini }, j)
      | .error e => (.error (.failed e), j) := by
  rw [check]
  cases ({ root, ini } : Settings).validate with
  | error e => exact perform_bind_of_error (perform_ofExcept_error _ _)
  | ok => exact perform_bind_of_ok (perform_ofExcept_ok _ _)

theorem loadRun_of_holds (h : Holds host j root ini) :
    ∃ r, (check root ini).perform host j = (r, j) ∧ LoadRun host j root r := by
  rw [perform_check]
  cases hv : ({ root, ini } : Settings).validate with
  | error e => exact ⟨_, rfl, .unusable (.command h hv)⟩
  | ok => exact ⟨_, rfl, .holds h hv⟩

theorem perform_load_of_missing
    (hfile : host.files.isFile host.cwd (root.child fileName) = .ok false) :
    (load root none).perform host j = (check root {}).perform host j :=
  perform_bind_of_ok (perform_isFile_eq_ok.mpr ⟨hfile, rfl⟩)

theorem perform_load_of_file
    (hfile : host.files.isFile host.cwd (root.child fileName) = .ok true) :
    (load root none).perform host j =
      match ofBytes (.file (root.child fileName)) (bytesAt host j root) with
      | .ok ini => (check root ini).perform host j
      | .error (.ini reason) => (.error (.failed (.unreadable (root.child fileName) reason)), j)
      | .error (.undecodable reason) => (.error (.fault (.undecodable reason)), j) := by
  have hpath : filePath root none = root.child fileName := rfl
  rw [load, hpath]
  refine (perform_bind_of_ok (perform_isFile_eq_ok.mpr ⟨hfile, rfl⟩)).trans ?_
  refine (perform_bind_of_ok (perform_readBytes _)).trans ?_
  rw [← bytesAt]
  rcases hb : ofBytes (.file (root.child fileName)) (bytesAt host j root) with
    (reason | reason) | ini
  · exact perform_bind_of_error (perform_fail _)
  · exact perform_bind_of_error (perform_raise _)
  · exact perform_bind_of_ok (perform_pure _)

theorem perform_load_of_holds (h : Holds host j root ini)
    (hv : ({ root, ini } : Settings).validate = .ok ()) :
    (load root none).perform host j = (.ok { root, ini }, j) := by
  have hcheck : (check root ini).perform host j = (.ok { root, ini }, j) := by
    rw [perform_check, hv]
  cases h with
  | missing hfile => rw [perform_load_of_missing hfile, hcheck]
  | file hfile hb =>
    rw [perform_load_of_file hfile, hb]
    exact hcheck

/-- Reading the settings of a tree ends in one of the ways that it may end, and leaves nothing. -/
theorem perform_load (host : Host) (j : Journal) (root : Path) :
    ∃ r, (load root none).perform host j = (r, j) ∧ LoadRun host j root r := by
  rcases hfile : host.files.isFile host.cwd (root.child fileName) with n | isFile
  · refine ⟨_, perform_bind_of_error (perform_isFile_eq_error.mpr ⟨n, hfile, rfl, rfl⟩), ?_⟩
    exact .faults (.name hfile)
  · cases isFile with
    | false =>
      rw [perform_load_of_missing hfile]
      exact loadRun_of_holds (.missing hfile)
    | true =>
      rw [perform_load_of_file hfile]
      rcases hb : ofBytes (.file (root.child fileName)) (bytesAt host j root) with
        (reason | reason) | ini
      · exact ⟨_, rfl, .unusable (.ini hfile hb)⟩
      · exact ⟨_, rfl, .faults (.undecodable hfile hb)⟩
      · exact loadRun_of_holds (.file hfile hb)

end Settings
end MachTree

import Mathlib.Data.List.TakeWhile
import XubinhServer.Format.BaseName
import XubinhServer.LogCollector
import XubinhServer.LogFile

/-! The base name that the collector gives to its log file. -/
namespace XubinhServer.LogCollector

open Format

def initialBaseName : List UInt8 := bytes "log_collector"

/-- The name is assigned from a C string, which ends with its first `\0`. -/
def setBaseName (baseName path : List UInt8) : List UInt8 :=
  if path.isEmpty then baseName
  else (path.drop (getBaseNameOfPath path path.length)).takeWhile (· ≠ 0)

variable {baseName path : List UInt8}

theorem no_slash_setBaseName (hname : 47 ∉ baseName) (path : List UInt8) :
    47 ∉ setBaseName baseName path := by
  rw [setBaseName]
  split
  · exact hname
  · exact fun hmem => (isBaseName_getBaseNameOfPath path).1 ((List.takeWhile_sublist _).subset hmem)

theorem no_slash_of_calls (paths : List (List UInt8)) :
    47 ∉ paths.foldl setBaseName initialBaseName := by
  have hcalls : ∀ (paths : List (List UInt8)) (name : List UInt8), 47 ∉ name →
      47 ∉ paths.foldl setBaseName name := by
    intro paths
    induction paths with
    | nil => exact fun _ hname => hname
    | cons path paths ih => exact fun _ hname => ih _ (no_slash_setBaseName hname path)
  exact hcalls paths initialBaseName (by decide)

theorem setBaseName_eq (hpath : path ≠ []) (hnul : 0 ∉ path) (baseName : List UInt8) :
    setBaseName baseName path = path.drop (getBaseNameOfPath path path.length) := by
  have hother : ∀ b ∈ path.drop (getBaseNameOfPath path path.length), decide (b ≠ 0) = true :=
    fun b hb => decide_eq_true fun hzero => hnul (hzero ▸ List.mem_of_mem_drop hb)
  rw [setBaseName, if_neg (mt List.isEmpty_iff.mp hpath)]
  exact List.takeWhile_eq_self_iff.mpr hother

theorem new_of_no_slash {datetimeString : Int → List UInt8} (hname : 47 ∉ baseName) (time : Int) :
    ∃ file, LogFile.new datetimeString baseName time = .ok file := by
  rw [LogFile.new, if_neg hname]
  exact ⟨_, rfl⟩

/-- Pointer and length are those of the text behind the last slash, which becomes the base name.
With it, whatever has been set before, the log file is constructed. -/
theorem getBaseNameOfPath_isBaseName (path : List UInt8) (hnul : 0 ∉ path) :
    ∃ name, IsBaseName path name ∧ getBaseNameOfPath path path.length ≤ path.length ∧
      path.drop (getBaseNameOfPath path path.length) = name ∧
      getBaseNameLengthOfPath path path.length = name.length ∧
      (path ≠ [] → ∀ baseName, setBaseName baseName path = name) ∧
      ∀ (earlier : List (List UInt8)) (datetimeString : Int → List UInt8) (time : Int),
        ∃ file, LogFile.new datetimeString
          (setBaseName (earlier.foldl setBaseName initialBaseName) path) time = .ok file := by
  refine ⟨_, isBaseName_getBaseNameOfPath path, baseNameOfPathFrom_le path path.length, rfl,
    getBaseNameLengthOfPath_eq path, fun hpath => setBaseName_eq hpath hnul,
    fun earlier datetimeString time => ?_⟩
  exact new_of_no_slash (no_slash_setBaseName (no_slash_of_calls earlier) path) time

/-- A path with a slash at its end. -/
theorem getBaseNameOfPath_isBaseName_slash : (0 : UInt8) ∉ bytes "logs/server/" ∧
    ∃ name, IsBaseName (bytes "logs/server/") name ∧
      getBaseNameLengthOfPath (bytes "logs/server/") (bytes "logs/server/").length =
        name.length := by
  have hnul : (0 : UInt8) ∉ bytes "logs/server/" := by decide
  obtain ⟨name, hname, _, _, hlength, _⟩ :=
    getBaseNameOfPath_isBaseName (bytes "logs/server/") hnul
  exact ⟨hnul, name, hname, hlength⟩

end XubinhServer.LogCollector

import DialF.Lib.Paths

/-!
# References inside a bundle

A job of a bundle names its audio file by the way there from the job's own directory, so that the
bundle can be put anywhere. `relativeZipPath` makes that way from two paths of the archive, and
joining it to the directory and normalising gives the file back (`normalizePath_relativeZipPath`).
-/

set_option autoImplicit false

namespace DialF.Bundle

open DialF.Lib

/-- The relative path from a directory of the archive to an entry of it. -/
def relativeZipPath (base target : Str) : Str :=
  let baseParts := pathParts base
  let targetParts := pathParts target
  let common := ((baseParts.zip targetParts).takeWhile fun p => p.1 = p.2).length
  joinParts (List.replicate (baseParts.length - common) ['.', '.'] ++ targetParts.drop common)

theorem relativeZipPath_eq (base target : Str) :
    relativeZipPath base target = joinParts (route (pathParts base) (pathParts target)) := rfl

/-- The parts of a way are names and `..`. -/
theorem parts_route {a b : List Str} (hb : ∀ p ∈ b, IsName p) :
    ∀ p ∈ route a b, p ≠ [] ∧ '/' ∉ p := by
  intro p hp
  rcases List.mem_append.1 hp with hp | hp
  · rw [List.eq_of_mem_replicate hp]
    decide
  · obtain ⟨hne, hsep, -⟩ := hb p (List.mem_of_mem_drop hp)
    exact ⟨hne, hsep⟩

/-- **A reference leads back** to the entry that it was made for. -/
theorem normalizePath_relativeZipPath {base target : Str} (hbase : IsNormal base)
    (htarget : IsNormal target) :
    normalizePath (joinPath base (relativeZipPath base target)) = target := by
  obtain ⟨a, ha, rfl⟩ := hbase
  obtain ⟨b, hb, rfl⟩ := htarget
  have hparts : ∀ {parts : List Str}, (∀ p ∈ parts, IsName p) →
      pathParts (joinParts parts) = parts :=
    fun h => pathParts_joinParts fun p hp => ⟨(h p hp).1, (h p hp).2.1⟩
  rw [relativeZipPath_eq, hparts ha, hparts hb, normalizePath,
    pathParts_joinPath (head?_joinParts (parts_route hb)), hparts ha,
    pathParts_joinParts (parts_route hb), walk_append, walk_of_names ha, List.nil_append,
    walk_route hb]

theorem normalizePath_relativeZipPath_beside :
    relativeZipPath "a/b".toList "a/c/x.wav".toList = "../c/x.wav".toList ∧
      normalizePath (joinPath "a/b".toList (relativeZipPath "a/b".toList "a/c/x.wav".toList)) =
        "a/c/x.wav".toList :=
  ⟨by decide, normalizePath_relativeZipPath
    ⟨["a".toList, "b".toList], by decide, by decide⟩
    ⟨["a".toList, "c".toList, "x.wav".toList], by decide, by decide⟩⟩

end DialF.Bundle

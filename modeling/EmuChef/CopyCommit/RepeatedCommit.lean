import EmuChef.CopyCommit.TreeLaw

/-! What a commit leaves alone in the tree of an ideal device, and what it finds there when it is
repeated. -/

namespace EmuChef.CopyCommit

section

variable {sha256 : List UInt8 → List UInt8} {freshIdentity : String → Option String}
  {context : MutationContext}

theorem contentAt_kind {left right : DirectoryTree} {path : String}
    (same : contentAt left path = contentAt right path) : left.kindAt path = right.kindAt path := by
  cases first : left.node path <;> cases second : right.node path <;>
    simp_all [contentAt, CopyManifestEntry.content, FileTree.kindAt, entryKind_injective]

theorem reviewedDeletions_settled {source after : DirectoryTree}
    (same : ∀ path, contentAt after path = contentAt source path) :
    reviewedDeletions .mirror (scan source) (scan after) = .ok [] := by
  have nothing : (scan after).filter (shouldDelete .mirror (kindByPath (scan source))) = [] := by
    rw [List.filter_eq_nil_iff]
    intro entry member
    obtain ⟨node, found, made⟩ := mem_scan.mp member
    rw [← made, shouldDelete_scan found]
    exact fun deletes => deletes.2 (contentAt_kind (same _)).symm
  rw [reviewedDeletions, nothing]
  rfl

/-- A commit repeated on the tree that it left changes no content, and a mirror has nothing left to
delete. -/
theorem mutateSelectedRoot_repeats {source destination : DirectoryTree}
    (trees : ReviewedTrees context.request source destination) :
    ∃ state after, Program.attempt (idealDevice freshIdentity)
        (mutateSelectedRoot sha256 context) destination = (.ok state, after) ∧
      (context.request.operation = .mirror →
        reviewedDeletions .mirror (scan source) (scan after) = .ok []) ∧
      ∀ again : MutationContext, again.request.operation = context.request.operation →
        ReviewedTrees again.request source after →
        ∃ second later, Program.attempt (idealDevice freshIdentity)
            (mutateSelectedRoot sha256 again) after = (.ok second, later) ∧
          ∀ path, contentAt later path = contentAt after path := by
  obtain ⟨state, before, after, ran, beforeNode, compatible, afterNode, _, _⟩ :=
    mutateSelectedRoot_tree trees
  have contents := contentAt_mergedNode trees beforeNode compatible afterNode
  refine ⟨state, after, ran, fun mirrors => reviewedDeletions_settled fun path => ?_, ?_⟩
  · rw [contents, mirrors]
    rfl
  · intro again operation repeated
    obtain ⟨second, middle, later, reran, middleNode, agrees, laterNode, _, _⟩ :=
      mutateSelectedRoot_tree repeated
    refine ⟨second, later, reran, fun path => ?_⟩
    rw [contentAt_mergedNode repeated middleNode agrees laterNode, operation]
    cases kind : context.request.operation with
    | addUpdate =>
        simp only [expectedContent, contents, kind]
        cases contentAt source path <;> rfl
    | replace => simp only [expectedContent, contents, kind]
    | mirror => simp only [expectedContent, contents, kind]

/-- A commit keeps every entry that is neither deleted nor copied over, with its identity; each file
of the source stands there anew, and the state lists just these deletions and copies. -/
theorem mutateSelectedRoot_frame {source destination : DirectoryTree}
    (trees : ReviewedTrees context.request source destination) :
    ∃ state after, Program.attempt (idealDevice freshIdentity)
        (mutateSelectedRoot sha256 context) destination = (.ok state, after) ∧
      (∀ path node, destination.node path = some node →
        path ∉ context.request.reviewedDeletionSet → source.kindAt path ≠ some .file →
          after.node path = some node) ∧
      (∀ path identity digest, source.node path = some (.file identity digest) →
        after.node path = some (.file (freshIdentity path) digest)) ∧
      (∀ path, path ∈ state.deletedPaths ↔
        Deletes context.request.operation source destination path) ∧
      ∀ path, path ∈ state.copiedPaths ↔ source.kindAt path = some .file := by
  obtain ⟨state, before, after, ran, beforeNode, _, afterNode, deleted, copied⟩ :=
    mutateSelectedRoot_tree trees
  refine ⟨state, after, ran, ?_, ?_, ?_, ?_⟩
  · intro path node present kept notFile
    have stays : before.node path = some node := by rw [beforeNode, if_neg kept, present]
    rw [afterNode, mergedNode]
    cases found : source.node path with
    | none => exact stays
    | some wanted =>
        cases wanted with
        | directory => simp [stays]
        | file => simp [FileTree.kindAt, found, TreeNode.kind] at notFile
  · intro path identity digest found
    rw [afterNode, mergedNode, found]
  · intro path
    rw [deleted, List.mem_insertionSort]
    exact mem_reviewedDeletions_scan trees.reviewed
  · intro path
    rw [copied, List.mem_insertionSort, mem_paths_files]

end

def sampleContext : MutationContext := ⟨sampleRequest, "binding", "/stage", "/helper"⟩

theorem sampleTrees : ReviewedTrees sampleContext.request sampleSource sampleDestination :=
  ⟨identified_iff.mpr (by decide), rfl, rfl, by decide⟩

theorem mutateSelectedRoot_repeats_sample :
    ∃ state after, Program.attempt (idealDevice fun path => some ("new " ++ path))
        (mutateSelectedRoot (fun bytes => bytes) sampleContext) sampleDestination = (.ok state, after) ∧
      reviewedDeletions .mirror (scan sampleSource) (scan after) = .ok [] := by
  obtain ⟨state, after, ran, settled, _⟩ := mutateSelectedRoot_repeats sampleTrees
  exact ⟨state, after, ran, settled rfl⟩

theorem mutateSelectedRoot_frame_sample :
    ∃ state after, Program.attempt (idealDevice fun path => some ("new " ++ path))
        (mutateSelectedRoot (fun bytes => bytes) sampleContext) sampleDestination = (.ok state, after) ∧
      after.node "saves/slot" = some (.file (some "new saves/slot") "d2") := by
  obtain ⟨state, after, ran, _, published, _⟩ := mutateSelectedRoot_frame sampleTrees
  exact ⟨state, after, ran, published _ none "d2" rfl⟩

end EmuChef.CopyCommit

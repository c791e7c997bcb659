import Arbor.Proofs.Blueprint.Sprouts
import Arbor.Proofs.Pipeline.Markers

/-! What the expansion of a hierarchy's word changes. Each leaf below the root ends its bracket with
an `F`, which a tip takes the place of; which tip, a draw of the root's generator says. Everything
else stays, names and numbers included, and further passes find nothing to do. -/

namespace Arbor

def FileTree.ending (leaf : FileTree) (width : Word) : Word :=
  '@' :: Word.enclose (EntryKind.file.payload leaf.path) ++ '!' :: Word.enclose width

/-- Whether the second word is the first one with the tips, in order, in place of the `F`s that end
the brackets of the leaves. All other characters are the same. -/
inductive Word.Tipped : List FileTree → List Word → Word → Word → Prop
  | nil : Tipped [] [] [] []
  | copy {leaves : List FileTree} {tips : List Word} {w v : Word} (c : Char)
    (hrest : Tipped leaves tips w v) : Tipped leaves tips (c :: w) (c :: v)
  | tip {leaves : List FileTree} {tips : List Word} {w v : Word} (leaf : FileTree)
    (width tip : Word) (hwidth : ')' ∉ width) (hrest : Tipped leaves tips w v) :
    Tipped (leaf :: leaves) (tip :: tips) (leaf.ending width ++ 'F' :: ']' :: w)
      (leaf.ending width ++ (tip ++ ']' :: v))

/-- What stands in front of all tips is the same in both words. -/
theorem Word.Tipped.append_left {leaves : List FileTree} {tips : List Word} {w v : Word}
    (h : Tipped leaves tips w v) (first : Word) :
    Tipped leaves tips (first ++ w) (first ++ v) := by
  induction first with
  | nil => exact h
  | cons c first ih => exact copy c ih

namespace Step

variable {α : Type} [Scalar α]

/-- Where each leaf has one sprout at the end of its bracket, growing puts one tip there. -/
theorem SproutsFor.tipped {leaves : List FileTree} {steps : List (Step α)}
    (h : SproutsFor leaves steps) (tips : Nat → Word) (n : Nat) :
    Word.Tipped leaves ((List.range' n leaves.length).map tips) (words steps)
      (grown tips n steps) := by
  induction h generalizing n with
  | nil => exact Word.Tipped.nil
  | step hstep _ ih =>
    rw [words_cons, grown, if_neg hstep]
    exact (ih n).append_left _
  | @leaf leaves steps entry radius _ ih =>
    -- The four steps make the ending of the leaf's bracket, an `F` or its tip, and the bracket.
    have htip := (ih (n + 1)).tip entry _ (tips n)
      (Decimal.Fixed.close_not_mem_text (Scalar.toFixed 3 radius))
    have hword : words (.mark .file entry.path :: .width radius :: .sprout :: .pop :: steps) =
        entry.ending (Scalar.toFixed 3 radius).text ++ 'F' :: ']' :: words steps := by
      simp [FileTree.ending, word, numberPayload]
    have hgrown : grown tips n (.mark .file entry.path :: .width radius :: .sprout :: .pop :: steps) =
        entry.ending (Scalar.toFixed 3 radius).text ++
          (tips n ++ ']' :: grown tips (n + 1) steps) := by
      simp [FileTree.ending, grown, isSprout, word, numberPayload]
    rw [hword, hgrown, List.length_cons, List.range'_succ, List.map_cons]
    exact htip

/-- No tip has a symbol that grows on, so a second pass changes nothing. -/
theorem derive_grown {tips : Nat → Word} (htips : ∀ n, tips n ∈ LSystem.organicTips) (n : Nat)
    {steps : List (Step α)} (h : ∀ step ∈ steps, step.Names IsQuiet) (gen : Generator) :
    LSystem.organicRules.derive gen (grown tips n steps) = (grown tips n steps, gen) := by
  have hplain : ∀ tip ∈ LSystem.organicTips, 'F' ∉ tip := by decide +kernel
  have hinactive (m : Nat) : ∀ c ∈ tips m, LSystem.organicRules.active? c = none := by
    intro c hc
    have hgrows : c ≠ 'F' := fun heq => hplain (tips m) (htips m) (heq ▸ hc)
    rw [organicRules_active?, if_neg hgrows]
  induction steps generalizing n with
  | nil => exact Rules.derive_nil _ _
  | cons step steps ih =>
    rw [List.forall_mem_cons] at h
    rw [grown]
    by_cases hs : step.isSprout
    · have hclosed := isSelfContained_of_mem_organicTips (htips n)
      rw [if_pos hs, Rules.derive_append_of_inactive _ _ hclosed (hinactive n), ih (n + 1) h.2]
    · rw [if_neg hs, derive_step h.1 hs, ih n h.2]

/-- The choice between three tips is by thirds of the range of a draw. -/
theorem organicTips_getElem? (gen : Generator) (n : Nat) :
    LSystem.organicTips[3 * (gen.after n).next.1.toNat / Generator.range]? =
      some (organicTip gen n) := by
  have hthree : LSystem.organicTips.length = 3 := rfl
  have hlt : (gen.after n).next.1.toNat < Generator.range := (gen.after n).next.1.toNat_lt
  have hshare : Generator.share 3 (gen.after n).next.1 =
      3 * (gen.after n).next.1.toNat / Generator.range := by
    rw [Generator.share_of_le (by decide), Nat.mul_comm]
    unfold Generator.range at hlt ⊢
    omega
  have hplace : 3 * (gen.after n).next.1.toNat / Generator.range < LSystem.organicTips.length := by
    rw [← hshare, hthree]
    exact Generator.share_lt (by decide) _
  rw [organicTip, Production.nth, hthree, Generator.pick_of_ne_zero _ (by decide)]
  simp only [hshare]
  rw [List.getElem?_eq_getElem hplace, List.getElem_eq_getD []]

end Step

open Step

variable {α β : Type} [Scalar α] [Scalar β]

/-- The pass of the organic rules puts the root's draws, in order, at the ends of the leaves'
brackets. -/
theorem tipped_ofFileTree {tree : FileTree} (hfiles : tree.filesAreLeaves)
    (hquiet : tree.LeafPathsAreQuiet) (hotspots : List (Hotspot β)) (base : UInt32) :
    Word.Tipped (tree.descendants.filter FileTree.isLeaf)
      ((List.range (tree.descendants.filter FileTree.isLeaf).length).map
        (organicTip (Generator.ofPath tree.path base)))
      (LSystem.ofFileTree tree hotspots base : LSystem α).start
      (LSystem.ofFileTree tree hotspots base : LSystem α).expand := by
  rw [expand_ofFileTree hfiles hquiet, List.range_eq_range']
  exact (FileTree.sproutsFor_blueprint base hfiles hotspots).tipped _ 0

/-- The expansion of a hierarchy's word puts a tip in the place of the `F` that ends the bracket of
each leaf below the root, and changes nothing else. The tips are chosen by the draws of the root's
generator, one for each leaf in display order. Any number of further passes leaves the word as it
is. -/
theorem expand_isTipped (tree : FileTree) (hfiles : tree.filesAreLeaves)
    (hpaths : ∀ leaf ∈ tree.leaves, ')' ∉ leaf.2.path.toList) (hotspots : List (Hotspot β))
    (base : UInt32) :
    ∃ tips : List Word,
      tips.map some = (List.range (tree.descendants.filter FileTree.isLeaf).length).map (fun i =>
        LSystem.organicTips[
          3 * ((Generator.ofPath tree.path base).after i).next.1.toNat / Generator.range]?) ∧
      Word.Tipped (tree.descendants.filter FileTree.isLeaf) tips
        (LSystem.ofFileTree tree hotspots base : LSystem α).start
        (LSystem.ofFileTree tree hotspots base : LSystem α).expand ∧
      ∀ passes, 1 ≤ passes →
        { (LSystem.ofFileTree tree hotspots base : LSystem α) with passes }.expand =
          (LSystem.ofFileTree tree hotspots base : LSystem α).expand := by
  have hquiet : tree.LeafPathsAreQuiet := FileTree.LeafPathsAreReadable.quiet hpaths
  have hnames : ∀ step ∈ tree.blueprint base hotspots, step.Names IsQuiet :=
    FileTree.names_of_mem_blueprint hfiles hquiet
  have hexpand := expand_ofFileTree (α := α) hfiles hquiet hotspots base
  refine ⟨(List.range (tree.descendants.filter FileTree.isLeaf).length).map
    (organicTip (Generator.ofPath tree.path base)), ?_, ?_, ?_⟩
  · rw [List.map_map]
    exact List.map_congr_left fun i _ => (organicTips_getElem? _ i).symm
  · exact tipped_ofFileTree hfiles hquiet hotspots base
  · -- The word after the first pass has no `F` outside of payloads.
    intro passes hpasses
    obtain ⟨more, rfl⟩ := Nat.exists_eq_add_of_le hpasses
    have hdone (gen : Generator) := derive_grown (organicTip_mem (Generator.ofPath tree.path base)) 0
      hnames gen
    rw [← hexpand] at hdone
    have hmore := Rules.expand_of_derive_eq hdone more
    exact congrArg Prod.fst ((Rules.expand_add _ 1 more _ _).trans (hmore _))

/-- Two tips grow, and the `F`s in the names stay. -/
theorem symbolic_isTipped :
    FileTree.symbolic.filesAreLeaves ∧
      (∀ leaf ∈ FileTree.symbolic.leaves, ')' ∉ leaf.2.path.toList) ∧
      ∃ tips : List Word,
        tips.map some = (List.range 2).map (fun i =>
          LSystem.organicTips[
            3 * ((Generator.ofPath "F" 7).after i).next.1.toNat / Generator.range]?) ∧
        Word.Tipped [.file "@f:G" "[F(/@f:G" 80, .directory "d:" "d:+" []] tips
          (LSystem.ofFileTree FileTree.symbolic ([] : List (Hotspot Float)) 7 :
            LSystem Float32).start
          (LSystem.ofFileTree FileTree.symbolic ([] : List (Hotspot Float)) 7 :
            LSystem Float32).expand ∧
        ∀ passes, 1 ≤ passes →
          { (LSystem.ofFileTree FileTree.symbolic ([] : List (Hotspot Float)) 7 :
              LSystem Float32) with passes }.expand =
            (LSystem.ofFileTree FileTree.symbolic ([] : List (Hotspot Float)) 7 :
              LSystem Float32).expand := by
  have hfiles : FileTree.symbolic.filesAreLeaves := by decide +kernel
  have hpaths : ∀ leaf ∈ FileTree.symbolic.leaves, ')' ∉ leaf.2.path.toList := by decide +kernel
  exact ⟨hfiles, hpaths, expand_isTipped FileTree.symbolic hfiles hpaths [] 7⟩

end Arbor

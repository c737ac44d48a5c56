import Unbox.Proofs.Members

/-!
# Settings that are written are read back

The text of settings is an object with one member for each of them, so that reading it by name gives the
settings again.

* `isMember_render` : a member as it is written;
* `isObject_render` : the text of settings;
* `read_render` : what is written is read.
-/

namespace Unbox.Settings
open Json

theorem isBlanks_newline (level : Nat) : IsBlanks (newline level) := by
  intro c hc
  rcases List.mem_cons.mp hc with rfl | hc
  · rfl
  · rw [List.eq_of_mem_replicate hc]
    rfl

theorem isMember_render {m : Member} {value : Json} (hv : m.IsWritten (value.renderAt 1))
    {d : List Char} (hd : IsBlanks d) : IsMember m (renderMember 0 (m.key, value) ++ d) := by
  have h := IsMember.mk (isBlanks_newline 1) (spells_escape m.key.toList) (by decide : IsBlanks [])
    (by decide : IsBlanks [' ']) hv hd
  simpa [renderMember, quote] using h

theorem isObject_renderAt {report : Bool} {depth : Nat} {level : Option String} {value : Json}
    (hdepth : depth ≤ maxNatural) (hlevel : (Member.logLevel level).IsWritten (value.renderAt 1)) :
    IsObject [.collectReport report, .maxDepth depth, .logLevel level]
      (renderAt 0 (.object [("collect_report", .bool report),
        ("max_refinement_depth", .natural depth), ("log_level", value)])) := by
  have hreport : (Member.collectReport report).IsWritten (renderAt 1 (.bool report)) := by
    cases report <;> simp [Member.IsWritten, renderAt]
  have hnatural : (Member.maxDepth depth).IsWritten (renderAt 1 (.natural depth)) :=
    ⟨hdepth, by rw [renderAt, digits]⟩
  have hnil : IsBlanks [] := by decide
  have hmembers := IsMembers.cons (isMember_render hreport hnil)
    (.cons (isMember_render hnatural hnil) (.last (isMember_render hlevel (isBlanks_newline 0))))
  have hobject := IsObject.members hnil hmembers hnil
  simpa [renderAt, renderMembers, Member.key] using hobject

theorem isObject_render {s : Settings} (h : s.maxDepth ≤ maxNatural) :
    IsObject [.collectReport s.collectReport, .maxDepth s.maxDepth, .logLevel s.logLevel]
      s.render.toList := by
  obtain ⟨report, depth, level⟩ := s
  rw [render, Json.render, String.toList_ofList]
  cases level with
  | none =>
    refine isObject_renderAt h ?_
    simp [Member.IsWritten, renderAt]
  | some level =>
    refine isObject_renderAt h ⟨_, spells_escape level.toList, ?_⟩
    rw [renderAt, quote]

/-- Settings are read as they were written, whatever their values: the depth is any number of 64 bits and
the level any text. -/
theorem read_render {s : Settings} (h : s.maxDepth ≤ maxNatural) : read s.render = .ok s := by
  have honce : Once [.collectReport s.collectReport, .maxDepth s.maxDepth, .logLevel s.logLevel] :=
    (by decide : names.Nodup)
  rw [read_of_isObject (isObject_render h) honce]
  rfl

/-- The largest depth, and a level with a quote, a backslash, control characters and characters of two
and four bytes. -/
theorem read_render_escaped :
    (⟨true, maxNatural, some "a\"\\\n\x01é😀"⟩ : Settings).maxDepth ≤ maxNatural ∧
    read (⟨true, maxNatural, some "a\"\\\n\x01é😀"⟩ : Settings).render =
      .ok ⟨true, maxNatural, some "a\"\\\n\x01é😀"⟩ :=
  ⟨Nat.le_refl _, read_render (Nat.le_refl _)⟩

end Unbox.Settings

import MicroC.Command.Run
import MicroC.Proofs.Emission.Program
import MicroC.Proofs.Files.Tree

/-!
What a run of the command leaves in the files. There are seven ways in which a
compilation can end. Whichever it is, the assembly file is there after a success
and not after a failure, and no file but the assembly and the listing is touched.
-/

namespace MicroC.Command

open FileTree (access Touches touches_of_write touches_discard)

/-! ### Running a command on a tree of files -/

/-- The result of a command and the files that it leaves, whatever was reported
before. -/
def Gives {α : Type} (x : CommandM (StateM FileTree) α) (t : FileTree)
    (result : Except (Halt Failure) α) (t' : FileTree) : Prop :=
  ∀ report, ∃ report', x.run report t = ((result, report'), t')

section

variable {α β : Type} {t t₁ t₂ : FileTree} {x : CommandM (StateM FileTree) α}
  {f : α → CommandM (StateM FileTree) β} {a : α}

theorem run_bind_eq (x : CommandM (StateM FileTree) α) (f : α → CommandM (StateM FileTree) β)
    (report : Report) (t : FileTree) :
    (x >>= f).run report t =
      match x.run report t with
      | ((.ok a, report), t) => (f a).run report t
      | ((.error stop, report), t) => ((.error stop, report), t) := by
  simp only [ExceptT.run, bind, ExceptT.bind, ExceptT.mk, StateT.bind, Id]
  rcases x report t with ⟨⟨_ | _, _⟩, _⟩ <;> rfl

theorem Gives.bind {result : Except (Halt Failure) β} (hx : Gives x t (.ok a) t₁)
    (hf : Gives (f a) t₁ result t₂) : Gives (x >>= f) t result t₂ := by
  intro report
  obtain ⟨report₁, hx⟩ := hx report
  obtain ⟨report₂, hf⟩ := hf report₁
  exact ⟨report₂, by rw [run_bind_eq, hx]; exact hf⟩

theorem Gives.bind_error {stop : Halt Failure} (hx : Gives x t (.error stop) t₁) :
    Gives (x >>= f) t (.error stop) t₁ := by
  intro report
  obtain ⟨report₁, hx⟩ := hx report
  exact ⟨report₁, by rw [run_bind_eq, hx]⟩

theorem gives_pure (a : α) (t : FileTree) : Gives (pure a) t (.ok a) t := fun _ => ⟨_, rfl⟩

theorem gives_note (records : List Journal.Record) (t : FileTree) :
    Gives (note records) t (.ok ()) t := fun _ => ⟨_, rfl⟩

theorem gives_say (text : String) (t : FileTree) : Gives (say text) t (.ok ()) t :=
  fun _ => ⟨_, rfl⟩

theorem gives_throw (stop : Halt Failure) (t : FileTree) :
    Gives (throw stop : CommandM (StateM FileTree) α) t (.error stop) t := fun _ => ⟨_, rfl⟩

theorem gives_lift {x : StateM FileTree α} (h : x t = (a, t₁)) : Gives (liftM x) t (.ok a) t₁ := by
  intro report
  refine ⟨report, ?_⟩
  have hrun : (liftM x : CommandM (StateM FileTree) α).run report t =
    ((.ok (x t).1, report), (x t).2) := rfl
  rw [hrun, h]

end

/-! ### The ways in which a compilation ends -/

/-- The text of the source file. -/
def SourceText (t : FileTree) (options : Options) (text : String) : Prop :=
  ∃ content, t.read options.source = .ok content ∧ String.fromUTF8? content = some text

/-- The tree of the source file. -/
def SourceTree (t : FileTree) (options : Options) (root : Node) : Prop :=
  ∃ text, SourceText t options text ∧ (readProgram options.source text).1 = .ok root

inductive Ends (options : Options) (t : FileTree) : Except (Halt Failure) Unit → FileTree → Prop
  | unreadable {reason : String} (h : ∀ text, ¬SourceText t options text) :
      Ends options t (.error (.failure (.diagnostic (.unreadable reason)))) t
  | rejected {text : String} {d : Diagnostic} (hsource : SourceText t options text)
      (h : (readProgram options.source text).1 = .error (.failure d)) :
      Ends options t (.error (.failure (.diagnostic d))) t
  | uncounted {text : String} {breach : Breach} (hsource : SourceText t options text)
      (h : (readProgram options.source text).1 = .error (.breach breach)) :
      Ends options t (.error (.breach breach)) t
  | unlisted {root : Node} {error : FileError} (hroot : SourceTree t options root)
      (h : t.write options.listingPath root.print.toUTF8 = .error error) :
      Ends options t (.error (.failure (.file error))) t
  | refused {root : Node} {t₁ : FileTree} {error : EmitError} (hroot : SourceTree t options root)
      (hlisting : t.write options.listingPath root.print.toUTF8 = .ok t₁)
      (h : (Assembly.ofTree options.target root).result = .error (.failure error)) :
      Ends options t (.error (.failure (.emission error))) t₁
  | unwritten {root : Node} {t₁ : FileTree} {assembly : String} {error : FileError}
      (hroot : SourceTree t options root)
      (hlisting : t.write options.listingPath root.print.toUTF8 = .ok t₁)
      (hassembly : (Assembly.ofTree options.target root).result = .ok assembly)
      (h : t₁.write options.output assembly.toUTF8 = .error error) :
      Ends options t (.error (.failure (.file error))) t₁
  | compiled {root : Node} {t₁ t₂ : FileTree} {assembly : String}
      (hroot : SourceTree t options root)
      (hlisting : t.write options.listingPath root.print.toUTF8 = .ok t₁)
      (hassembly : (Assembly.ofTree options.target root).result = .ok assembly)
      (h : t₁.write options.output assembly.toUTF8 = .ok t₂) : Ends options t (.ok ()) t₂

variable {options : Options} {t t₁ t₂ : FileTree} {text path : String} {root : Node}

theorem sourceText_of_read (h : t.read options.source = .ok text.toUTF8) :
    SourceText t options text := ⟨_, h, dif_pos text.isValidUTF8⟩

theorem gives_readSource (h : SourceText t options text) :
    Gives (readSource access options.source) t (.ok text) t := by
  obtain ⟨content, hread, htext⟩ := h
  have haccess : access.read options.source t = (.ok content, t) := by
    rw [FileTree.access_read, hread]
  refine (gives_lift haccess).bind ?_
  simp only [htext]
  exact gives_pure text t

theorem gives_readSource_error (h : ∀ text, ¬SourceText t options text) :
    ∃ reason, Gives (readSource access options.source) t
      (.error (.failure (.diagnostic (.unreadable reason)))) t := by
  have haccess : access.read options.source t = (t.read options.source, t) :=
    FileTree.access_read t options.source
  cases hread : t.read options.source with
  | error error =>
      rw [hread] at haccess
      exact ⟨error.text, (gives_lift haccess).bind (gives_throw _ t)⟩
  | ok content =>
      have htext : String.fromUTF8? content = none := by
        cases htext : String.fromUTF8? content with
        | none => rfl
        | some text => exact absurd ⟨content, hread, htext⟩ (h text)
      rw [hread] at haccess
      refine ⟨FileError.notText.text, (gives_lift haccess).bind ?_⟩
      simp only [htext]
      exact gives_throw _ t

theorem gives_writeText (h : t.write path text.toUTF8 = .ok t₁) :
    Gives (writeText access path text) t (.ok ()) t₁ := by
  have hwrite : access.write path text.toUTF8 t = (.ok (), t₁) := by
    rw [FileTree.access_write, h]
  exact (gives_lift hwrite).bind (gives_pure () t₁)

theorem gives_writeText_error {error : FileError} (h : t.write path text.toUTF8 = .error error) :
    Gives (writeText access path text) t (.error (.failure (.file error))) t := by
  have hwrite : access.write path text.toUTF8 t = (.error error, t) := by
    rw [FileTree.access_write, h]
  exact (gives_lift hwrite).bind (gives_throw _ t)

theorem gives_load {result : Except (Halt Failure) Node} (hsource : SourceText t options text)
    (h : Gives (match (readProgram options.source text).1 with
      | .ok root => pure root
      | .error (.failure d) => fail (.diagnostic d)
      | .error (.breach breach) => throw (.breach breach)) t result t) :
    Gives (load access options.source) t result t :=
  (gives_readSource hsource).bind ((gives_note _ t).bind h)

theorem SourceTree.gives_load (h : SourceTree t options root) :
    Gives (load access options.source) t (.ok root) t := by
  obtain ⟨text, hsource, hread⟩ := h
  refine Command.gives_load hsource ?_
  rw [hread]
  exact gives_pure root t

theorem gives_compile_of_load {result : Except (Halt Failure) Unit}
    (hload : Gives (load access options.source) t (.ok root) t)
    (h : Gives (do
      writeText access options.listingPath root.print
      note [.printed options.listingPath]
      writeText access options.output (← assemble options root)
      note [.compiled options.output]) t result t₁) :
    Gives (compile access options) t result t₁ := by
  refine (gives_note _ t).bind (hload.bind ?_)
  split
  · exact (gives_say _ t).bind h
  · exact h

theorem gives_compile_of_load_error {stop : Halt Failure}
    (h : Gives (load access options.source) t (.error stop) t) :
    Gives (compile access options) t (.error stop) t :=
  (gives_note _ t).bind h.bind_error

theorem gives_compile_of_breach {breach : Breach} (hsource : SourceText t options text)
    (h : (readProgram options.source text).1 = .error (.breach breach)) :
    Gives (compile access options) t (.error (.breach breach)) t := by
  refine gives_compile_of_load_error (gives_load hsource ?_)
  rw [h]
  exact gives_throw _ t

theorem gives_compile_of_unlisted {error : FileError} (hroot : SourceTree t options root)
    (h : t.write options.listingPath root.print.toUTF8 = .error error) :
    Gives (compile access options) t (.error (.failure (.file error))) t :=
  gives_compile_of_load hroot.gives_load (gives_writeText_error h).bind_error

theorem gives_assemble {assembly : String}
    (h : (Assembly.ofTree options.target root).result = .ok assembly) :
    Gives (assemble options root) t (.ok assembly) t := by
  refine (gives_note _ t).bind ?_
  rw [h]
  exact gives_pure assembly t

theorem gives_assemble_error {error : EmitError}
    (h : (Assembly.ofTree options.target root).result = .error (.failure error)) :
    Gives (assemble options root) t (.error (.failure (.emission error))) t := by
  refine (gives_note _ t).bind ?_
  rw [h]
  exact gives_throw _ t

theorem exists_ends_of_tree (hroot : SourceTree t options root) :
    ∃ result t', Ends options t result t' ∧ Gives (compile access options) t result t' := by
  have ⟨text, _, hread⟩ := hroot
  have hload := hroot.gives_load
  cases hlisting : t.write options.listingPath root.print.toUTF8 with
  | error error =>
      exact ⟨_, _, .unlisted hroot hlisting, gives_compile_of_unlisted hroot hlisting⟩
  | ok t₁ =>
      obtain ⟨p, -, rfl, hspellable⟩ := exists_program_of_readProgram hread
      have hresult := Assembly.ofTree_program options.target hspellable
      -- A program that was read breaks no contract.
      cases hfault : p.faultAfter [] with
      | some error =>
          rw [hfault] at hresult
          refine ⟨_, _, .refused hroot hlisting hresult, gives_compile_of_load hload ?_⟩
          exact (gives_writeText hlisting).bind
            ((gives_note _ t₁).bind (gives_assemble_error hresult).bind_error)
      | none =>
          rw [hfault] at hresult
          rcases houtput : t₁.write options.output _ with error | t₂
          · refine ⟨_, _, .unwritten hroot hlisting hresult houtput, gives_compile_of_load hload ?_⟩
            exact (gives_writeText hlisting).bind ((gives_note _ t₁).bind
              ((gives_assemble hresult).bind (gives_writeText_error houtput).bind_error))
          · refine ⟨_, _, .compiled hroot hlisting hresult houtput, gives_compile_of_load hload ?_⟩
            exact (gives_writeText hlisting).bind ((gives_note _ t₁).bind
              ((gives_assemble hresult).bind ((gives_writeText houtput).bind (gives_note _ t₂))))

/-- A compilation ends in one of the seven ways. -/
theorem exists_ends (options : Options) (t : FileTree) :
    ∃ result t', Ends options t result t' ∧ Gives (compile access options) t result t' := by
  by_cases hsource : ∃ text, SourceText t options text
  · obtain ⟨text, hsource⟩ := hsource
    rcases hread : (readProgram options.source text).1 with (d | breach) | root
    · refine ⟨_, _, .rejected hsource hread, gives_compile_of_load_error (gives_load hsource ?_)⟩
      rw [hread]
      exact gives_throw _ t
    · exact ⟨_, _, .uncounted hsource hread, gives_compile_of_breach hsource hread⟩
    · exact exists_ends_of_tree ⟨text, hsource, hread⟩
  · have hnone : ∀ text, ¬SourceText t options text := not_exists.mp hsource
    obtain ⟨reason, hreason⟩ := gives_readSource_error hnone
    exact ⟨_, _, .unreadable hnone, gives_compile_of_load_error hreason.bind_error⟩

/-! ### What a run leaves -/

theorem runOptions_eq (files : FileAccess (StateM FileTree)) (options : Options) (t : FileTree) :
    runOptions files options t =
      match (compile files options).run .empty t with
      | ((.ok (), report), t) => (⟨0, report.stdout, report.log options.verbosity⟩, t)
      | ((.error (.failure failure), report), t) =>
          let (((), report), t) := (discardOutput files options.output).run report t
          (⟨failure.exitCode, report.stdout,
            report.log options.verbosity ++ s!"error: {failure.message}\n"⟩, t)
      | ((.error (.breach breach), report), t) =>
          (⟨101, report.stdout, report.log options.verbosity ++ s!"{breach.message}\n"⟩, t) := by
  simp only [runOptions, bind, StateT.bind, StateT.run, Id]
  rcases (compile files options).run .empty t with ⟨⟨(_ | _) | _, _⟩, _⟩ <;> rfl

theorem exists_discardOutput (report : Report) (t : FileTree) (output : String) :
    ∃ report', (discardOutput access output).run report t = (((), report'), t.discard output) := by
  have hlift : (liftM (access.remove output) : StateT Report (StateM FileTree) _) report t =
      (((access.remove output t).1, report), (access.remove output t).2) := rfl
  simp only [discardOutput, bind, StateT.bind, StateT.run, Id]
  rw [hlift, FileTree.access_remove, FileTree.discard]
  cases t.remove output with
  | ok t' => exact ⟨_, rfl⟩
  | error error => cases error <;> exact ⟨_, rfl⟩

/-- How a result is told to the caller. -/
def exitCode : Except (Halt Failure) Unit → UInt32
  | .ok () => 0
  | .error (.failure failure) => failure.exitCode
  | .error (.breach _) => 101

/-- The files after a compilation that ended with the files `t`. -/
def cleaned (output : String) (t : FileTree) : Except (Halt Failure) Unit → FileTree
  | .error (.failure _) => t.discard output
  | _ => t

theorem exists_outcome {result : Except (Halt Failure) Unit}
    (h : Gives (compile access options) t result t₁) :
    ∃ outcome, runOptions access options t = (outcome, cleaned options.output t₁ result) ∧
      outcome.exitCode = exitCode result := by
  obtain ⟨report, h⟩ := h .empty
  rw [runOptions_eq, h]
  rcases result with (failure | breach) | _
  · obtain ⟨report', hdiscard⟩ := exists_discardOutput report t₁ options.output
    simp only [hdiscard]
    exact ⟨_, rfl, rfl⟩
  · exact ⟨_, rfl, rfl⟩
  · exact ⟨_, rfl, rfl⟩

/-- A source file that can be compiled, with places for what is written. -/
structure Compiles (options : Options) (t : FileTree) (root : Node) (assembly : String) : Prop where
  tree : SourceTree t options root
  listing : t.Writable options.listingPath
  output : t.Writable options.output
  assembly : (Assembly.ofTree options.target root).result = .ok assembly

/-- What can be relied on after a run that went from the files `t` to the files
`t'`. -/
structure Intact (options : Options) (t : FileTree) (exitCode : UInt32) (t' : FileTree) :
    Prop where
  success : exitCode = 0 ↔ ∃ root assembly, Compiles options t root assembly
  output : ∀ root assembly, Compiles options t root assembly →
    t'.read options.output = .ok assembly.toUTF8
  noOutput : exitCode ≠ 0 → ∀ content, t'.read options.output ≠ .ok content
  blame : exitCode = 3 ↔ ∃ text d, SourceText t options text ∧
    (readProgram options.source text).1 = .error (.failure d)
  failure : exitCode ≠ 0 → exitCode ≠ 3 → exitCode = 1
  listing : ∀ root, SourceTree t options root → t.Writable options.listingPath →
    t'.read options.listingPath = .ok root.print.toUTF8
  noListing : (∀ root, SourceTree t options root → ¬t.Writable options.listingPath) →
    ∀ key, t.Locates options.listingPath key → t'.find? key = t.find? key
  others : ∀ key, ¬t.Locates options.output key → ¬t.Locates options.listingPath key →
    t'.find? key = t.find? key

theorem SourceText.unique {text' : String} (h : SourceText t options text)
    (h' : SourceText t options text') : text = text' := by
  obtain ⟨content, hread, htext⟩ := h
  obtain ⟨content', hread', htext'⟩ := h'
  rw [hread] at hread'
  cases hread'
  exact Option.some.inj (htext.symm.trans htext')

theorem SourceText.not_sourceTree {stop : Halt Diagnostic} (h : SourceText t options text)
    (hread : (readProgram options.source text).1 = .error stop) : ¬SourceTree t options root := by
  rintro ⟨text', hsource, hroot⟩
  obtain rfl := h.unique hsource
  rw [hread] at hroot
  cases hroot

theorem SourceTree.unique {root' : Node} (h : SourceTree t options root)
    (h' : SourceTree t options root') : root = root' := by
  obtain ⟨text, hsource, hread⟩ := h
  obtain ⟨text', hsource', hread'⟩ := h'
  obtain rfl := hsource.unique hsource'
  exact Except.ok.inj (hread.symm.trans hread')

/-- Whether and how the listing was written. -/
def Listed (options : Options) (t t₁ : FileTree) : Prop :=
  (∃ root, SourceTree t options root ∧
    t.write options.listingPath root.print.toUTF8 = .ok t₁) ∨
  t₁ = t ∧ ∀ root, SourceTree t options root → ¬t.Writable options.listingPath

namespace Listed

theorem touches (h : Listed options t t₁) : Touches options.listingPath t t₁ := by
  rcases h with ⟨root, -, hwrite⟩ | ⟨rfl, -⟩
  · exact (touches_of_write hwrite).1
  · exact ⟨.refl _, fun _ _ => rfl⟩

/-- What is done to the assembly file later does not change the listing. -/
theorem read_listing (h : Listed options t t₁) (ht : Touches options.output t₁ t₂)
    (hroot : SourceTree t options root) (hwritable : t.Writable options.listingPath) :
    t₂.read options.listingPath = .ok root.print.toUTF8 := by
  rcases h with ⟨root', hroot', hwrite⟩ | ⟨-, hnot⟩
  · obtain rfl := hroot.unique hroot'
    exact ht.read_suffix (by decide) (by decide) (touches_of_write hwrite).2
  · exact absurd hwritable (hnot root hroot)

theorem find?_listing (h : Listed options t t₁) (ht : Touches options.output t₁ t₂)
    (hnot : ∀ root, SourceTree t options root → ¬t.Writable options.listingPath)
    {key : List String} (hkey : t.Locates options.listingPath key) :
    t₂.find? key = t.find? key := by
  rcases h with ⟨root, hroot, hwrite⟩ | ⟨rfl, -⟩
  · exact absurd ((FileTree.writable_iff _).mpr ⟨_, hwrite⟩) (hnot root hroot)
  · exact ht.others key fun hkey' => hkey'.ne_of_suffix (by decide) (by decide) hkey rfl

theorem find?_other (h : Listed options t t₁) (ht : Touches options.output t₁ t₂)
    {key : List String} (houtput : ¬t.Locates options.output key)
    (hlisting : ¬t.Locates options.listingPath key) : t₂.find? key = t.find? key := by
  rw [ht.others key fun hkey => houtput (h.touches.alike.locates_iff.mp hkey),
    h.touches.others key hlisting]

end Listed

theorem Failure.exitCode_eq (failure : Failure) :
    failure.exitCode = 1 ∨ failure.exitCode = 3 := by
  cases failure with
  | diagnostic d =>
      rw [exitCode]
      split
      · exact .inr rfl
      · exact .inl rfl
  | emission error => exact .inl rfl
  | file error => exact .inl rfl

theorem intact_of_failure (failure : Failure) (hlisted : Listed options t t₁)
    (hnot : ∀ root assembly, ¬Compiles options t root assembly)
    (hblame : failure.exitCode = 3 ↔ ∃ text d, SourceText t options text ∧
      (readProgram options.source text).1 = .error (.failure d)) :
    Intact options t failure.exitCode (t₁.discard options.output) := by
  obtain ⟨htouches, hnone⟩ := touches_discard t₁ options.output
  have hzero : failure.exitCode ≠ 0 := by
    rcases failure.exitCode_eq with hcode | hcode <;> rw [hcode] <;> decide
  refine ⟨⟨fun h => absurd h hzero, ?_⟩, ?_, fun _ => hnone, hblame,
    fun _ => failure.exitCode_eq.resolve_right, fun root => hlisted.read_listing htouches,
    fun hnot key => hlisted.find?_listing htouches hnot, fun key => hlisted.find?_other htouches⟩
  · rintro ⟨root, assembly, hcompiles⟩
    exact absurd hcompiles (hnot root assembly)
  · exact fun root assembly hcompiles => absurd hcompiles (hnot root assembly)

/-- A failure that comes after the tree was read is not the fault of the text. -/
theorem intact_of_sourceTree (failure : Failure) (hroot : SourceTree t options root)
    (hlisted : Listed options t t₁) (hnot : ∀ assembly, ¬Compiles options t root assembly)
    (hcode : failure.exitCode = 1) :
    Intact options t failure.exitCode (t₁.discard options.output) := by
  refine intact_of_failure failure hlisted ?_ ?_
  · intro root' assembly hcompiles
    obtain rfl := hroot.unique hcompiles.tree
    exact hnot assembly hcompiles
  · rw [hcode]
    refine ⟨fun h => absurd h (by decide), ?_⟩
    rintro ⟨text, d, hsource, hread⟩
    exact absurd hroot (hsource.not_sourceTree hread)

theorem intact_of_compiles {assembly : String} (hcompiles : Compiles options t root assembly)
    (hlisted : Listed options t t₁)
    (houtput : t₁.write options.output assembly.toUTF8 = .ok t₂) : Intact options t 0 t₂ := by
  obtain ⟨htouches, hread⟩ := touches_of_write houtput
  refine ⟨⟨fun _ => ⟨root, assembly, hcompiles⟩, fun _ => rfl⟩, ?_, fun h => absurd rfl h, ?_,
    fun h => absurd rfl h, fun root => hlisted.read_listing htouches,
    fun hnot key => hlisted.find?_listing htouches hnot, fun key => hlisted.find?_other htouches⟩
  · intro root' assembly' hcompiles'
    obtain rfl := hcompiles.tree.unique hcompiles'.tree
    obtain rfl := Except.ok.inj (hcompiles.assembly.symm.trans hcompiles'.assembly)
    exact hread
  · refine ⟨fun h => absurd h (by decide), ?_⟩
    rintro ⟨text, d, hsource, hread⟩
    exact absurd hcompiles.tree (hsource.not_sourceTree hread)

theorem Ends.intact {result : Except (Halt Failure) Unit} (h : Ends options t result t₁)
    (hresult : ∀ breach, result ≠ .error (.breach breach)) :
    Intact options t (exitCode result) (cleaned options.output t₁ result) := by
  cases h with
  | @unreadable reason hnone =>
      have hnot : ∀ root, ¬SourceTree t options root := by
        rintro root ⟨text, hsource, -⟩
        exact hnone text hsource
      refine intact_of_failure (.diagnostic (.unreadable reason))
        (.inr ⟨rfl, fun root hroot => absurd hroot (hnot root)⟩)
        (fun root _ hcompiles => hnot root hcompiles.tree) ⟨fun h => absurd h ?_, ?_⟩
      · change (1 : UInt32) ≠ 3
        decide
      · rintro ⟨text, d, hsource, -⟩
        exact absurd hsource (hnone text)
  | @rejected text d hsource hread =>
      have hnot : ∀ root, ¬SourceTree t options root := fun _ => hsource.not_sourceTree hread
      refine intact_of_failure (.diagnostic d)
        (.inr ⟨rfl, fun root hroot => absurd hroot (hnot root)⟩)
        (fun root _ hcompiles => hnot root hcompiles.tree) ⟨fun _ => ⟨text, d, hsource, hread⟩, ?_⟩
      intro _
      rw [Failure.exitCode, if_pos (blamesSource_of_readProgram hread)]
  | uncounted => exact absurd rfl (hresult _)
  | @unlisted root error hroot hwrite =>
      have hnot : ¬t.Writable options.listingPath := by
        rw [FileTree.writable_iff root.print.toUTF8, hwrite]
        exact nofun
      refine intact_of_sourceTree (.file error) hroot (.inr ⟨rfl, fun _ _ => hnot⟩) ?_ rfl
      exact fun assembly hcompiles => hnot hcompiles.listing
  | @refused root t₁ error hroot hlisting hrefused =>
      refine intact_of_sourceTree (.emission error) hroot (.inl ⟨_, hroot, hlisting⟩) ?_ rfl
      intro assembly hcompiles
      cases hrefused.symm.trans hcompiles.assembly
  | @unwritten root t₁ assembly error hroot hlisting hassembly hwrite =>
      have hlisted : Listed options t t₁ := .inl ⟨_, hroot, hlisting⟩
      have hnot : ¬t.Writable options.output := by
        rw [← hlisted.touches.alike.writable_iff, FileTree.writable_iff assembly.toUTF8, hwrite]
        exact nofun
      refine intact_of_sourceTree (.file error) hroot hlisted ?_ rfl
      exact fun assembly hcompiles => hnot hcompiles.output
  | @compiled root t₁ t₂ assembly hroot hlisting hassembly hwrite =>
      have hlisted : Listed options t t₁ := .inl ⟨_, hroot, hlisting⟩
      have houtput : t.Writable options.output := by
        rw [← hlisted.touches.alike.writable_iff, FileTree.writable_iff assembly.toUTF8]
        exact ⟨_, hwrite⟩
      have hlisting' : t.Writable options.listingPath := (FileTree.writable_iff _).mpr ⟨_, hlisting⟩
      exact intact_of_compiles ⟨hroot, hlisting', houtput, hassembly⟩ hlisted hwrite

theorem exitCode_of_long_listing (hroot : SourceTree t options root)
    (hslash : '/' ∉ options.listingPath.toList)
    (hlong : FileTree.nameLimit < options.listingPath.utf8ByteSize) :
    (runOptions access options t).1.exitCode = 1 := by
  cases hwrite : t.write options.listingPath root.print.toUTF8 with
  | ok t₁ =>
      obtain ⟨key, hkey, -⟩ := FileTree.write_eq_ok.mp hwrite
      exact absurd hkey (FileTree.not_locates_of_long hslash hlong t key)
  | error error =>
      obtain ⟨outcome, hrun, hcode⟩ := exists_outcome (gives_compile_of_unlisted hroot hwrite)
      rw [hrun]
      exact hcode

/-- A line that is too long to count its columns. -/
theorem exists_outcome_of_blanks {n : Nat} (h : 2 ^ 32 - 1 ≤ n) :
    ∃ outcome t', runOptions access ⟨"in.c", "a.s", .rv32, false, 0⟩
        ⟨[(["in.c"], .file (String.ofList (List.replicate n ' ')).toUTF8),
          (["a.s"], .file "ret\n".toUTF8)], []⟩ = (outcome, t') ∧
      outcome.exitCode = 101 ∧ t'.read "a.s" = .ok "ret\n".toUTF8 := by
  let t : FileTree := ⟨[(["in.c"], .file (String.ofList (List.replicate n ' ')).toUTF8),
    (["a.s"], .file "ret\n".toUTF8)], []⟩
  let options : Options := ⟨"in.c", "a.s", .rv32, false, 0⟩
  obtain ⟨breach, hread⟩ := exists_breach_readProgram h "in.c"
  have hcontent : ∀ source output, FileTree.read
      ⟨[(["in.c"], .file source), (["a.s"], .file output)], []⟩ "in.c" = .ok source :=
    fun _ _ => rfl
  have hsource : SourceText t options (.ofList (List.replicate n ' ')) :=
    sourceText_of_read (hcontent _ _)
  obtain ⟨outcome, hrun, hcode⟩ := exists_outcome (gives_compile_of_breach hsource hread)
  exact ⟨outcome, t, hrun, hcode, rfl⟩

end MicroC.Command

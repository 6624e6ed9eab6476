/-
What is read from arguments. An option with choices takes one of them only (`fits_readArguments`), so that
arguments that can be read never spoil valid settings of the environment (`settingsFor_eq`); and the options in
their full spelling, with a path behind them, are read as they are meant (`readArguments_words`).
-/
import LetOrConst.Command

namespace LetOrConst.Command

theorem ok_of_bind {ε α β : Type} {x : Except ε α} {f : α → Except ε β} {r : β} (h : x >>= f = .ok r) :
    ∃ a, x = .ok a ∧ f a = .ok r := by
  cases x with
  | error e => cases h
  | ok a => exact ⟨a, rfl, h⟩

/-! ## Choices -/

/-- The values given to options are among their choices. -/
structure Arguments.Fits (a : Arguments) : Prop where
  resolution : ∀ s ∈ a.resolution, ∃ r : Resolution, Resolution.ofName? s = some r
  format : ∀ s ∈ a.format, ∃ f : OutputFormat, OutputFormat.ofName? s = some f

theorem fits_applyValue {flag : Flag} {value : String} {r r' : Reading} (hr : r.arguments.Fits)
    (h : applyValue flag value r = .ok r') : r'.arguments.Fits := by
  unfold applyValue at h
  split at h
  · rename_i hvalue
    rw [List.contains_iff_mem] at hvalue
    cases flag with
    | resolution =>
      cases h
      refine ⟨fun s hs => ?_, hr.format⟩
      cases hs
      obtain ⟨mode, -, rfl⟩ := List.mem_map.1 hvalue
      exact ⟨mode, by cases mode <;> rfl⟩
    | format =>
      cases h
      refine ⟨hr.resolution, fun s hs => ?_⟩
      cases hs
      obtain ⟨format, -, rfl⟩ := List.mem_map.1 hvalue
      exact ⟨format, by cases format <;> rfl⟩
    | help => cases h; exact hr
    | verbose => cases h; exact hr
  · cases h

theorem fits_applyFlags {flags : List Flag} {r r' : Reading} (hr : r.arguments.Fits) (h : applyFlags flags r = .ok r') :
    r'.arguments.Fits := by
  fun_induction applyFlags flags r with
  | case1 => cases h; exact hr
  | case2 => cases h
  | case3 r rest ih => exact ih ⟨hr.resolution, hr.format⟩ h
  | case4 r flag rest _ _ ih => exact ih hr h

theorem fits_applySwitch {flag : Flag} {spelling : List Char} {joined : Option (List Char)} {r r' : Reading}
    (hr : r.arguments.Fits) (h : applySwitch flag spelling joined r = .ok r') : r'.arguments.Fits := by
  unfold applySwitch at h
  split at h
  · exact fits_applyFlags hr h
  · split at h
    · cases h
    · obtain ⟨flags, -, h⟩ := ok_of_bind h
      exact fits_applyFlags hr h

theorem fits_readRest {r : Reading} {rest : List (String × Shape)} (hr : r.arguments.Fits) :
    (readRest r rest).arguments.Fits := by
  unfold readRest
  split
  · exact hr
  · split
    · exact hr
    · exact ⟨hr.resolution, hr.format⟩

theorem fits_readAll {r r' : Reading} {shaped : List (String × Shape)} (hr : r.arguments.Fits)
    (h : readAll r shaped = .ok r') : r'.arguments.Fits := by
  fun_induction readAll r shaped with
  | case1 => cases h; exact hr
  | case2 r argument rest ih => exact ih hr h
  | case3 r _ flag spelling _ value rest ih =>
    obtain ⟨q, hq, h⟩ := ok_of_bind h
    exact ih q (fits_applyValue hr hq) h
  | case4 r _ flag spelling _ value rest ih =>
    obtain ⟨q, hq, h⟩ := ok_of_bind h
    exact ih q (fits_applyValue hr hq) h
  | case5 => cases h
  | case6 r _ flag spelling joined rest _ ih =>
    obtain ⟨q, hq, h⟩ := ok_of_bind h
    exact ih q (fits_applySwitch hr hq) h
  | case7 r argument shape rest _ _ _ _ ih => exact ih hr h
  | case8 r argument shape rest _ _ _ _ _ ih => exact ih ⟨hr.resolution, hr.format⟩ h
  | case9 => cases h; exact fits_readRest hr

theorem fits_readArguments {arguments : List String} {a : Arguments} (h : readArguments arguments = .ok a) :
    a.Fits := by
  unfold readArguments at h
  obtain ⟨shaped, -, h⟩ := ok_of_bind h
  obtain ⟨r, hr, h⟩ := ok_of_bind h
  split at h
  · cases h
    refine fits_readAll ⟨?_, ?_⟩ hr <;> intro s hs <;> cases hs
  · cases h

/-! ## Settings -/

/-- The way to match that a run uses: the one asked for, else that of the environment. -/
def Arguments.resolutionOver (a : Arguments) (base : Settings) : Resolution :=
  (a.resolution.bind Resolution.ofName?).getD base.resolution

/-- The form in which a run shows its results. -/
def Arguments.formatOver (a : Arguments) (base : Settings) : OutputFormat :=
  (a.format.bind OutputFormat.ofName?).getD base.format

theorem choose_eq {α : Type} {ofName? : String → Option α} {refuse : String → Settings.Error} {current : α}
    {given : Option String} (h : ∀ s ∈ given, ∃ v, ofName? s = some v) :
    Settings.choose ofName? refuse current given = .ok ((given.bind ofName?).getD current) := by
  cases given with
  | none => rfl
  | some s =>
    obtain ⟨v, hv⟩ := h s rfl
    simp [Settings.choose, hv]

/-- Arguments that can be read and a valid environment make settings. -/
theorem settingsFor_eq {environment : List (String × String)} {a : Arguments} {base : Settings} (ha : a.Fits)
    (hbase : Settings.ofEnvironment environment = .ok base) :
    ∃ threshold, settingsFor environment a = .ok ⟨a.resolutionOver base, a.formatOver base, threshold⟩ := by
  have hlevel : ∃ threshold, Settings.choose Threshold.ofName? .level base.threshold
      (if a.verbose then some "DEBUG" else none) = .ok threshold := by
    cases a.verbose with
    | true =>
      have hdebug : Threshold.ofName? "DEBUG" = some ⟨"DEBUG", 10⟩ := by decide +kernel
      exact ⟨⟨"DEBUG", 10⟩, by simp [Settings.choose, hdebug]⟩
    | false => exact ⟨_, rfl⟩
  obtain ⟨threshold, hthreshold⟩ := hlevel
  refine ⟨threshold, ?_⟩
  unfold settingsFor Settings.override
  rw [hbase]
  show (do
    let resolution ← Settings.choose Resolution.ofName? .resolution base.resolution a.resolution
    let format ← Settings.choose OutputFormat.ofName? .format base.format a.format
    let threshold ← Settings.choose Threshold.ofName? .level base.threshold (if a.verbose then some "DEBUG" else none)
    return (⟨resolution, format, threshold⟩ : Settings)) = _
  rw [choose_eq ha.resolution, choose_eq ha.format, hthreshold]
  rfl

/-! ## Full spellings -/

/-- What can be asked for. -/
structure Wish where
  path : String
  resolution : Option Resolution := none
  format : Option OutputFormat := none
  verbose : Bool := false

/-- A wish as arguments, every option in its full spelling. -/
def Wish.words (w : Wish) : List String :=
  w.resolution.elim [] (fun r => ["--resolution", r.name]) ++
    (w.format.elim [] (fun f => ["--format", f.name]) ++ ((if w.verbose then ["--verbose"] else []) ++ [w.path]))

/-- The path of a wish is no option. -/
def Wish.Proper (w : Wish) : Prop := w.path = "-" ∨ w.path.toList.head? ≠ some '-'

/-- What is read from a wish. -/
def Wish.arguments (w : Wish) : Arguments where
  path := w.path
  resolution := w.resolution.map (·.name)
  format := w.format.map (·.name)
  verbose := w.verbose

theorem Wish.over_arguments (w : Wish) (base : Settings) :
    w.arguments.resolutionOver base = w.resolution.getD base.resolution ∧
      w.arguments.formatOver base = w.format.getD base.format := by
  rcases w with ⟨path, _ | _ | _, _ | _ | _, verbose⟩ <;> exact ⟨rfl, rfl⟩

theorem shapes_cons {argument : String} {shape : Shape} {rest : List String} {shaped : List (String × Shape)}
    (hne : argument ≠ "--") (hshape : shapeOf argument = .ok shape) (hrest : shapes rest = .ok shaped) :
    shapes (argument :: rest) = .ok ((argument, shape) :: shaped) := by
  rw [shapes, if_neg hne, hshape, hrest]
  rfl

theorem shapes_path {w : Wish} (h : w.Proper) : shapes [w.path] = .ok [(w.path, .plain)] := by
  refine shapes_cons ?_ ?_ rfl
  · intro hdashes
    rw [Wish.Proper, hdashes] at h
    revert h
    decide
  · rcases h with hdash | h
    · rw [hdash]
      rfl
    · rw [shapeOf, if_pos h]

theorem shapes_choice {α : Type} (word : String) (flag : Flag) (name : α → String) (given : Option α)
    {rest : List String} {shaped : List (String × Shape)}
    (hword : word ≠ "--" ∧ shapeOf word = .ok (.option flag word.toList none))
    (hname : ∀ v, name v ≠ "--" ∧ shapeOf (name v) = .ok .plain) (hrest : shapes rest = .ok shaped) :
    shapes (given.elim [] (fun v => [word, name v]) ++ rest) =
      .ok (given.elim [] (fun v => [(word, .option flag word.toList none), (name v, .plain)]) ++ shaped) := by
  cases given with
  | none => exact hrest
  | some v => exact shapes_cons hword.1 hword.2 (shapes_cons (hname v).1 (hname v).2 hrest)

/-- Options in their full spelling are read as they are meant. -/
theorem readArguments_words {w : Wish} (h : w.Proper) : readArguments w.words = .ok w.arguments := by
  have hverbose : shapes ((if w.verbose then ["--verbose"] else []) ++ [w.path]) = .ok
      ((if w.verbose then [("--verbose", .option .verbose "--verbose".toList none)] else []) ++
        [(w.path, .plain)]) := by
    split
    · exact shapes_cons (by decide) rfl (shapes_path h)
    · exact shapes_path h
  have hformat := shapes_choice "--format" .format OutputFormat.name w.format
    ⟨by decide, rfl⟩ (by rintro (_ | _) <;> exact ⟨by decide, rfl⟩) hverbose
  have hwords := shapes_choice "--resolution" .resolution Resolution.name w.resolution
    ⟨by decide, rfl⟩ (by rintro (_ | _) <;> exact ⟨by decide, rfl⟩) hformat
  unfold readArguments Wish.words
  rw [hwords]
  rcases w with ⟨path, _ | _ | _, _ | _ | _, _ | _⟩ <;> rfl

end LetOrConst.Command

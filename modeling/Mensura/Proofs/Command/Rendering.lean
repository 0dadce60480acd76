import Mensura.Command
import Mensura.Proofs.Files.Content

/-!
# Rendering in a session that goes on

A session is `Ready` for a watch if the source can be opened, and output and log are other files
than the source and than each other.  Each step leaves it ready, and the output as it was or
rewritten (`Advances`): saying something, logging, writing.

What a rendering does is told by the content of the source alone (`rerender_advances`).  Of what can
go wrong only a fault inside the calculator is not survived (`isSurvivable_of_documentIn`).
-/

set_option autoImplicit false

namespace Mensura
namespace Command

/-! ## Sessions -/

namespace Session

/-- Where a session logs to. -/
def logPlaces (s : Session) : List Place :=
  s.logFile.toList.map (·.1)

variable (s : Session) (logger : String) (level : LogLevel) (message : String)

@[simp] theorem logPlaces_appendToLog (line : String) :
    (s.appendToLog line).logPlaces = s.logPlaces := by
  rw [appendToLog]
  cases hlog : s.logFile with
  | none => rfl
  | some log => simp [logPlaces, hlog]

@[simp] theorem logPlaces_log : (s.log logger level message).logPlaces = s.logPlaces := by
  rw [log]
  split
  · exact logPlaces_appendToLog _ _
  · rfl

variable {s}

/-- Logging changes nothing but the log. -/
theorem changedAt_log (h : ∀ p ∈ s.logPlaces, s.files.Fits p) :
    Files.ChangedAt s.logPlaces s.files (s.log logger level message).files := by
  rw [log]
  split
  · rw [appendToLog]
    cases hlog : s.logFile with
    | none =>
      rw [writeLine, hlog]
      exact .refl _ _
    | some log =>
      have hplaces : s.logPlaces = [log.1] := by simp [logPlaces, hlog]
      simp only [writeLine, hlog, hplaces]
      exact Files.changedAt_putAt (h log.1 (by simp [hplaces])) _
  · exact .refl _ _

end Session

/-! ## Steps of a watch -/

/-- The source can be opened, and what a watch writes to are other files than the source and than
each other. -/
structure Ready (setup : Setup) (s : Session) : Prop where
  source : s.files.opens setup.source = true
  output : Place.ofPath setup.output ≠ Place.ofPath setup.source
  log : ∀ p ∈ s.logPlaces, s.files.Fits p
  logOutput : Place.ofPath setup.output ∉ s.logPlaces
  logSource : Place.ofPath setup.source ∉ s.logPlaces

/-- A session goes on, the output rewritten or left alone. -/
structure Advances (setup : Setup) (written : Option (List UInt8)) (s t : Session) : Prop where
  ready : Ready setup t
  opens : t.files.opens setup.output = s.files.opens setup.output
  output : t.files.contentAt? (Place.ofPath setup.output) =
    written.or (s.files.contentAt? (Place.ofPath setup.output))

variable {setup : Setup} {s t u : Session} {written more : Option (List UInt8)}

theorem Advances.refl (h : Ready setup s) : Advances setup none s s :=
  ⟨h, rfl, rfl⟩

theorem Advances.trans (h : Advances setup written s t) (h' : Advances setup more t u) :
    Advances setup (more.or written) s u :=
  ⟨h'.ready, h'.opens.trans h.opens, by rw [h'.output, h.output, Option.or_assoc]⟩

/-- What follows may leave the output alone. -/
theorem Advances.followed (h : Advances setup written s t) (h' : Advances setup none t u) :
    Advances setup written s u :=
  h.trans h'

/-- Contents may change where no directory is. -/
theorem Ready.of_changedAt {places : List Place} (h : Ready setup s)
    (hchanged : Files.ChangedAt places s.files t.files)
    (hfree : ∀ p ∈ places, s.files.isDirectoryAt p = false) (hlog : t.logPlaces = s.logPlaces) :
    Ready setup t where
  source := (hchanged.opens hfree).trans h.source
  output := h.output
  log p hp := hchanged.fits (h.log p (hlog ▸ hp))
  logOutput := hlog ▸ h.logOutput
  logSource := hlog ▸ h.logSource

theorem Advances.of_changedAt {places : List Place} (h : Ready setup s)
    (hchanged : Files.ChangedAt places s.files t.files)
    (hfree : ∀ p ∈ places, s.files.isDirectoryAt p = false) (hlog : t.logPlaces = s.logPlaces)
    (houtput : Place.ofPath setup.output ∉ places) : Advances setup none s t :=
  ⟨h.of_changedAt hchanged hfree hlog, hchanged.opens hfree, hchanged.contents _ houtput⟩

/-- Logging leaves source and output alone. -/
theorem Ready.log_advances (h : Ready setup s) (logger : String) (level : LogLevel)
    (message : String) : Advances setup none s (s.log logger level message) :=
  .of_changedAt h (Session.changedAt_log logger level message h.log) (fun p hp ↦ (h.log p hp).free)
    (s.logPlaces_log logger level message) h.logOutput

theorem Ready.contentAt?_log (h : Ready setup s) (logger : String) (level : LogLevel)
    (message : String) : (s.log logger level message).files.contentAt? (Place.ofPath setup.source) =
      s.files.contentAt? (Place.ofPath setup.source) :=
  (Session.changedAt_log logger level message h.log).contents _ h.logSource

theorem Ready.say_advances (h : Ready setup s) (line : String) :
    Advances setup none s (s.say line) :=
  .of_changedAt h (.refl [] _) nofun rfl nofun

theorem Ready.complain_advances (h : Ready setup s) (line : String) :
    Advances setup none s (s.complain line) :=
  .of_changedAt h (.refl [] _) nofun rfl nofun

/-- Writing the output, which changes no directory as the output can be opened. -/
theorem Ready.write_advances (h : Ready setup s) (hopens : s.files.opens setup.output = true)
    (bytes : List UInt8) : Advances setup (some bytes) s
      { s with files := s.files.putAt (Place.ofPath setup.output) bytes } := by
  have hfits := Files.fits_of_opens hopens
  have hchanged := Files.changedAt_putAt hfits bytes
  have hfree : ∀ p ∈ [Place.ofPath setup.output], s.files.isDirectoryAt p = false := by
    simpa using hfits.free
  exact ⟨h.of_changedAt hchanged hfree rfl, hchanged.opens hfree,
    Files.contentAt?_putAt_self _ _ _⟩

theorem Ready.setLevel_advances (h : Ready setup s) (level : LogLevel) :
    Advances setup none s (s.setLevel level) ∧
      (s.setLevel level).files.contentAt? (Place.ofPath setup.source) =
        s.files.contentAt? (Place.ofPath setup.source) := by
  have hready : Ready setup { s with level := level } :=
    ⟨h.source, h.output, h.log, h.logOutput, h.logSource⟩
  have hleveled : Advances setup none s { s with level := level } := ⟨hready, rfl, rfl⟩
  exact ⟨hleveled.followed (hready.log_advances _ _ _), hready.contentAt?_log _ _ _⟩

/-- A session with an empty log file. -/
def Session.logging (s : Session) (p : Place) : Session :=
  { s with files := s.files.putAt p [], logFile := some (p, 0) }

theorem eq_of_startLogging {level : LogLevel} {path : String}
    (h : s.startLogging level (some path) = .ok t) :
    s.files.Fits (Place.ofPath path) ∧ t = (s.logging (Place.ofPath path)).setLevel level := by
  obtain ⟨files, hwrite, h⟩ := bind_eq_ok.mp h
  cases hopens : s.files.opens (Place.ofPath path).path with
  | false =>
    obtain ⟨f, hf⟩ := Files.write_of_not_opens hopens []
    rw [hf] at hwrite
    cases hwrite
  | true =>
    have hfits := Files.fits_of_opens hopens
    rw [Files.write_of_opens hopens] at hwrite
    rw [Place.ofPath_path] at hwrite hfits
    obtain rfl := Except.ok.inj hwrite
    exact ⟨hfits, (Except.ok.inj h).symm⟩

theorem logging_advances {p : Place} (hfits : s.files.Fits p)
    (hsource : s.files.opens setup.source = true)
    (houtput : Place.ofPath setup.output ≠ Place.ofPath setup.source)
    (houtputLog : Place.ofPath setup.output ≠ p) (hsourceLog : Place.ofPath setup.source ≠ p) :
    Advances setup none s (s.logging p) ∧
      (s.logging p).files.contentAt? (Place.ofPath setup.source) =
        s.files.contentAt? (Place.ofPath setup.source) := by
  have hchanged : Files.ChangedAt [p] s.files (s.logging p).files :=
    Files.changedAt_putAt hfits []
  have hfree : ∀ q ∈ [p], s.files.isDirectoryAt q = false := by simpa using hfits.free
  have hplaces : (s.logging p).logPlaces = [p] := rfl
  refine ⟨⟨⟨(hchanged.opens hfree).trans hsource, houtput, fun q hq ↦ ?_, ?_, ?_⟩,
    hchanged.opens hfree, hchanged.contents _ ?_⟩, hchanged.contents _ ?_⟩
  · obtain rfl := List.mem_singleton.mp (hplaces ▸ hq)
    exact hchanged.fits hfits
  all_goals simpa [hplaces]

/-- **A session is ready once logging has started**, if source, output and log are different
files. -/
theorem advances_of_startLogging {level : LogLevel} {logFile : Option String}
    (hfresh : s.logFile = none) (hlogging : s.startLogging level logFile = .ok t)
    (hsource : s.files.opens setup.source = true)
    (hplaces : (Place.ofPath setup.source :: Place.ofPath setup.output ::
      logFile.toList.map Place.ofPath).Nodup) :
    Advances setup none s t ∧ t.files.contentAt? (Place.ofPath setup.source) =
      s.files.contentAt? (Place.ofPath setup.source) := by
  have houtput : Place.ofPath setup.output ≠ Place.ofPath setup.source := by
    rintro heq
    simp [heq] at hplaces
  cases logFile with
  | none =>
    obtain rfl := Except.ok.inj hlogging
    have hnone : s.logPlaces = [] := by rw [Session.logPlaces, hfresh]; rfl
    have hready : Ready setup s :=
      ⟨hsource, houtput, by simp [hnone], by simp [hnone], by simp [hnone]⟩
    exact hready.setLevel_advances level
  | some path =>
    obtain ⟨hfits, rfl⟩ := eq_of_startLogging hlogging
    obtain ⟨⟨-, hsourceLog⟩, houtputLog⟩ : (_ ∧ Place.ofPath setup.source ≠ Place.ofPath path) ∧
        Place.ofPath setup.output ≠ Place.ofPath path := by simpa using hplaces
    obtain ⟨hopened, hkept⟩ := logging_advances hfits hsource houtput houtputLog hsourceLog
    obtain ⟨hleveled, hcontent⟩ := hopened.ready.setLevel_advances level
    exact ⟨hopened.followed hleveled, hcontent.trans hkept⟩

/-! ## Rendering -/

/-- The document of a content, or what keeps it from having one. -/
def documentIn (settings : Settings) (content : List UInt8) : Except Trouble Document.Rendered :=
  match Text.decode content with
  | .error e => .error (.undecodable e)
  | .ok cs =>
    match Document.render Float settings.maxDigits settings.scientific
        (String.ofList (Text.unifyLineEnds false cs)) with
    | .ok d => .ok d
    | .error f => .error (.ofDocument f)

/-- What is written of a content that has a document. -/
def documentBytes? (settings : Settings) (content : List UInt8) : Option (List UInt8) :=
  match documentIn settings content with
  | .ok d => some (Text.encode d.text)
  | .error _ => none

/-- The fault that a content stops with, instead of an error of the calculator. -/
def faultIn? (settings : Settings) (content : List UInt8) : Option Fault :=
  match documentIn settings content with
  | .error (.fault f) => some f
  | _ => none

variable {content : List UInt8}

theorem documentOf_eq {fs : Files} (h : fs.read setup.source = .ok content) :
    documentOf fs setup = documentIn setup.settings content := by
  rw [documentOf, sourceText, h, documentIn]
  dsimp only
  cases Text.decode content with
  | error e => rfl
  | ok cs =>
    dsimp only
    rw [ok_bind]
    cases Document.render Float setup.settings.maxDigits setup.settings.scientific
        (String.ofList (Text.unifyLineEnds false cs)) <;> rfl

/-- Only a fault cannot be survived. -/
theorem isSurvivable_of_documentIn {settings : Settings} {trouble : Trouble}
    (h : documentIn settings content = .error trouble) :
    trouble.isSurvivable = true ∧ faultIn? settings content = none ∨
      ∃ f, trouble = .fault f ∧ faultIn? settings content = some f := by
  rw [faultIn?, h]
  rw [documentIn] at h
  split at h
  · obtain rfl := Except.error.inj h
    exact .inl ⟨rfl, rfl⟩
  split at h
  · cases h
  next failure _ =>
  obtain rfl := Except.error.inj h
  cases failure with
  | error line e => exact .inl ⟨rfl, rfl⟩
  | fault f => exact .inr ⟨f, rfl, rfl⟩

/-- A document is written if the output can be opened; otherwise that is the trouble. -/
theorem renderFile_of_ok (h : Ready setup s) {d : Document.Rendered}
    (hd : documentOf s.files setup = .ok d) :
    Advances setup (if s.files.opens setup.output then some (Text.encode d.text) else none) s
        (renderFile setup s).1 ∧
      ∀ trouble ∈ (renderFile setup s).2, trouble.isSurvivable = true := by
  rw [renderFile, hd]
  dsimp only
  have hlogged := h.log_advances Session.statementLogger .info
    ("Rendered " ++ toString d.statements ++ " statement(s)")
  -- The record of the rendering comes first; it is no obstacle to the output.
  rw [← hlogged.opens]
  generalize s.log Session.statementLogger .info
    ("Rendered " ++ toString d.statements ++ " statement(s)") = s₁ at hlogged
  cases hopens : s₁.files.opens setup.output with
  | true =>
    have hwritten := hlogged.ready.write_advances hopens (Text.encode d.text)
    have hadvances := hlogged.trans hwritten
    rw [Option.or_none] at hadvances
    rw [Files.write_of_opens hopens, if_pos rfl]
    exact ⟨hadvances.followed (hwritten.ready.log_advances _ _ _),
      fun _ htrouble ↦ absurd htrouble (Option.not_mem_none _)⟩
  | false =>
    obtain ⟨f, hf⟩ := Files.write_of_not_opens hopens (Text.encode d.text)
    rw [hf, if_neg Bool.false_ne_true]
    refine ⟨hlogged, fun trouble htrouble ↦ ?_⟩
    obtain rfl := Option.some.inj htrouble
    rfl

/-- **A rendering is told by the content of the source.**  It leaves the document in the output, if
there is a document and the output can be opened; and it goes wrong beyond repair only with a
fault. -/
theorem rerender_advances (h : Ready setup s)
    (hcontent : s.files.contentAt? (Place.ofPath setup.source) = some content) :
    Advances setup
        (if s.files.opens setup.output then documentBytes? setup.settings content else none)
        s (rerender setup s).1 ∧
      (rerender setup s).2 = (faultIn? setup.settings content).map .fault := by
  have hdocument := documentOf_eq (Files.read_eq_ok_iff.mpr ⟨h.source, hcontent⟩)
  rw [documentBytes?, rerender]
  cases hd : documentIn setup.settings content with
  | ok d =>
    rw [hd] at hdocument
    obtain ⟨hadvances, hsurvivable⟩ := renderFile_of_ok h hdocument
    rw [faultIn?, hd]
    generalize renderFile setup s = rendered at hadvances hsurvivable
    obtain ⟨t, result⟩ := rendered
    cases result with
    | none => exact ⟨hadvances.followed (hadvances.ready.say_advances _), rfl⟩
    | some trouble =>
      have hlogged := hadvances.ready.log_advances Session.commandLogger .error trouble.message
      dsimp only
      rw [if_pos (hsurvivable trouble rfl)]
      exact ⟨(hadvances.followed hlogged).followed (hlogged.ready.complain_advances _), rfl⟩
  | error trouble =>
    rw [hd] at hdocument
    rw [ite_self, renderFile, hdocument]
    dsimp only
    rcases isSurvivable_of_documentIn hd with ⟨hsurvivable, hfault⟩ | ⟨f, rfl, hfault⟩
    · have hlogged := h.log_advances Session.commandLogger .error trouble.message
      rw [hfault, if_pos hsurvivable]
      exact ⟨hlogged.followed (hlogged.ready.complain_advances _), rfl⟩
    · rw [hfault]
      exact ⟨.refl h, rfl⟩

end Command
end Mensura

import SoloRun.Proofs.BrokenParts
import SoloRun.Proofs.Cutoff

/-!
What is captured of a child. Its output is the text that its bytes read as, in the order in which it
wrote them to either stream; its exit code is that of its ending.
-/

namespace SoloRun

/-- A text that bytes read as: the characters whose encodings they are, and U+FFFD for each broken
part between them. -/
structure Utf8.Reading (bytes : Bytes) (text : String) : Prop where
  parted : ∃ parts, Cuts bytes parts
  shown : ∀ parts, Cuts bytes parts → text = String.ofList (parts.map Piece.shown)
  whole : ∀ exact, bytes = encode exact → text = exact
  kept : ∀ start rest, bytes = encode start ++ rest → text = start ++ decode rest
  valid : decode? (encode text) = .ok text
  again : decode (encode text) = text

theorem Utf8.reading_decode (bytes : Bytes) : Reading bytes (decode bytes) where
  parted := ⟨pieces bytes, cuts_pieces bytes⟩
  shown parts hcuts := by rw [hcuts.unique (cuts_pieces bytes), decode]
  whole exact hbytes := by rw [hbytes, decode_encode]
  kept start rest hbytes := by rw [hbytes, decode_encode_append]
  valid := decode?_encode _
  again := decode_encode _

namespace Behaviour

/-- How a child ends, by whether an interrupt was sent to it. -/
def endingIf (behaviour : Behaviour) (hit : Prop) [Decidable hit] : Ending :=
  if hit ∧ behaviour.interrupting? ≠ some .ignores then .killed 2 else behaviour.ending

theorem code_of_lastly {behaviour : Behaviour} {code : Int} {signals after : Signals}
    (h : behaviour.lastly signals = .ended code after) : code = behaviour.ending.code := by
  rw [lastly] at h
  split at h <;> cases h
  rfl

theorem code_of_ended {behaviour : Behaviour} {child : Nat} {code : Int} {signals after : Signals}
    (h : behaviour.fate child signals = .ended code after) :
    code = (behaviour.endingIf (child ∈ after.hit)).code := by
  rw [fate] at h
  split at h
  · next hhit =>
    cases h
    rw [endingIf, if_pos hhit]
    rfl
  · next hhit =>
    cases hhow : behaviour.interrupting? with
    | none =>
      rw [hhow] at h
      rw [endingIf, eq_of_lastly h, if_neg hhit, code_of_lastly h]
    | some how =>
      simp only [hhow] at h
      split at h
      · cases h
      cases how with
      | ignores => rw [endingIf, hhow, if_neg (by simp), code_of_lastly h]
      | dies =>
        dsimp only at h
        split at h
        · next hmem =>
          cases h
          rw [endingIf, hhow, if_pos ⟨hmem, by simp⟩]
          rfl
        · cases h
      | insists =>
        dsimp only at h
        split at h <;> cases h

end Behaviour

namespace Ending

variable {ending : Ending}

theorem code_eq_zero_iff (h : ending ≠ .killed 0) :
    ending.code = 0 ↔ ∃ status, ending = .exits status ∧ status % 256 = 0 := by
  cases ending with
  | exits status => simp [code]
  | killed signal =>
    have hpos : signal ≠ 0 := fun heq => h (heq ▸ rfl)
    simpa [code] using hpos

end Ending

/-- The child of a command writes the bytes, in this order, to one stream or the other. -/
def World.Writes (world : World) (setting : Setting) (command : Command) (bytes : Bytes) : Prop :=
  ∃ home, setting.script.place world.tree setting.cwd command = .ok home ∧
    (setting.script.behaviour command.args).merged home = bytes

theorem World.Writes.unique {world : World} {setting : Setting} {command : Command}
    {bytes others : Bytes} (h : world.Writes setting command bytes)
    (hother : world.Writes setting command others) : bytes = others := by
  obtain ⟨home, hhome, rfl⟩ := h
  obtain ⟨place, hplace, rfl⟩ := hother
  rw [Except.ok.inj (hhome.symm.trans hplace)]

namespace Run

open Procedure

variable {setting : Setting} {world : World} {command : Command} {output : Capture}

theorem start_of_captured (h : ((capture command).carryOut setting world).result = .ok output) :
    world.start setting command =
      .ended output ((capture command).carryOut setting world).world := by
  simp only [capture, carryOut] at h ⊢
  split at h
  · cases h
  · cases h
  · next hstart =>
    cases h
    rw [hstart]
    rfl

theorem captured_of_start {after : World} (h : world.start setting command = .ended output after) :
    ((capture command).carryOut setting world).result = .ok output := by
  simp only [capture, carryOut, h]
  rfl

theorem eq_of_captured (h : ((capture command).carryOut setting world).result = .ok output) :
    let behaviour := setting.script.behaviour command.args
    let after := ((capture command).carryOut setting world).world
    (∃ bytes, world.Writes setting command bytes ∧ output.output = Utf8.decode bytes) ∧
      output.exitCode = (behaviour.endingIf (world.children ∈ after.signals.hit)).code := by
  intro behaviour after
  have hstart := start_of_captured h
  rw [World.start] at hstart
  split at hstart
  · cases hstart
  · next home hplace =>
    dsimp only at hstart
    split at hstart
    · next code signals hfate =>
      obtain ⟨rfl, hafter⟩ := World.Started.ended.inj hstart
      have hhit : after.signals.hit = signals.hit := congrArg (·.signals.hit) hafter.symm
      simp only [hhit]
      exact ⟨⟨_, ⟨home, hplace, rfl⟩, rfl⟩, Behaviour.code_of_ended hfate⟩
    · cases hstart
    · cases hstart

theorem output_of_captured {bytes : Bytes}
    (h : ((capture command).carryOut setting world).result = .ok output)
    (hwrites : world.Writes setting command bytes) : output.output = Utf8.decode bytes := by
  obtain ⟨⟨others, hothers, houtput⟩, -⟩ := eq_of_captured h
  rw [hwrites.unique hothers, houtput]

theorem captured_of_listed {dir : Path} {selector names : List String}
    (h : ((discover dir selector).carryOut setting world).result = .ok (.listed names)) :
    ∃ listing, ((capture (Command.listing dir selector)).carryOut setting world).result =
      .ok listing ∧ names = Listing.names listing.output := by
  have hbind : discover dir selector = (capture (Command.listing dir selector)).bind
      fun listing => .done (.ofCapture listing) := rfl
  rw [hbind] at h
  rcases carryOut_bind_cases setting (capture (Command.listing dir selector)) _ world with
    ⟨reason, -, heq⟩ | ⟨listing, hresult, heq⟩
  · rw [heq] at h
    cases h
  · rw [heq] at h
    refine ⟨listing, hresult, ?_⟩
    have hdiscovery : Discovery.ofCapture listing = .listed names := Except.ok.inj h
    rw [Discovery.ofCapture] at hdiscovery
    split at hdiscovery
    · exact (Discovery.listed.inj hdiscovery).symm
    · cases hdiscovery

/-- A captured child is read by its bytes in the order they were written in, whatever writes and
whichever stream they came by. So children that write the same bytes are captured with the same
output and list the same tests. The exit code is that of the child's ending; a child that can be
started and ends is captured. -/
theorem captures_read_bytes_in_order :
    (∀ (setting : Setting) (world : World) (command : Command) (output : Capture),
      let course := (capture command).carryOut setting world
      let behaviour := setting.script.behaviour command.args
      let ending := behaviour.endingIf (world.children ∈ course.world.signals.hit)
      course.result = .ok output →
        (∃ bytes, world.Writes setting command bytes ∧ Utf8.Reading bytes output.output) ∧
        (behaviour.ending ≠ .killed 0 →
          (output.exitCode = 0 ↔ ∃ status, ending = .exits status ∧ status % 256 = 0)) ∧
        ∀ signal, ending = .killed signal → output.exitCode = -signal) ∧
    (∀ (setting other : Setting) (world there : World) (command question : Command)
        (output answer : Capture) (bytes : Bytes),
      ((capture command).carryOut setting world).result = .ok output →
      ((capture question).carryOut other there).result = .ok answer →
      world.Writes setting command bytes → there.Writes other question bytes →
        output.output = answer.output) ∧
    (∀ (setting other : Setting) (world there : World) (dir path : Path)
        (selector targets names others : List String) (bytes : Bytes),
      ((discover dir selector).carryOut setting world).result = .ok (.listed names) →
      ((discover path targets).carryOut other there).result = .ok (.listed others) →
      world.Writes setting (Command.listing dir selector) bytes →
      there.Writes other (Command.listing path targets) bytes → names = others) ∧
    (∀ (setting : Setting) (world : World) (command : Command),
      setting.Ends world.tree command → (setting.trigger? = none → world.signals.flag = false) →
        ∃ output, ((capture command).carryOut setting world).result = .ok output) := by
  refine ⟨?_, ?_, ?_, ?_⟩
  · intro setting world command output course behaviour ending hresult
    obtain ⟨⟨bytes, hwrites, houtput⟩, hcode⟩ := eq_of_captured hresult
    refine ⟨⟨bytes, hwrites, houtput ▸ Utf8.reading_decode bytes⟩, ?_, ?_⟩
    · intro hsignal
      rw [hcode]
      refine Ending.code_eq_zero_iff ?_
      rw [Behaviour.endingIf]
      split
      · decide
      · exact hsignal
    · intro signal hending
      rw [hcode]
      exact congrArg Ending.code hending
  · intro setting other world there command question output answer bytes hresult hother hwrites
      hthere
    rw [output_of_captured hresult hwrites, output_of_captured hother hthere]
  · intro setting other world there dir path selector targets names others bytes hresult hother
      hwrites hthere
    obtain ⟨listing, hlisting, rfl⟩ := captured_of_listed hresult
    obtain ⟨answer, hanswer, rfl⟩ := captured_of_listed hother
    rw [output_of_captured hlisting hwrites, output_of_captured hanswer hthere]
  · intro setting world command hends hunset
    obtain ⟨output, after, hstart⟩ := World.exists_start_ended hends hunset
    exact ⟨output, captured_of_start hstart⟩

/-- Two listings of one test: its first character is split between the streams, or in one write. -/
def twoListings : Setting :=
  let dir := Path.ofString "/"
  ⟨.entries [
      ((Command.listing dir []).args,
        .ofPrints [.err [0xC3], .out [0xA9], .err (Utf8.encode ": test\n")] 0),
      ((Command.listing dir ["--lib"]).args, .ofPrints [.out (Utf8.encode "é: test\n")] 0)],
    fun _ => .zero, [], .lines, ⟨0, 0⟩, none⟩

theorem split_character_is_read_whole :
    let dir := Path.ofString "/"
    let world := World.fresh .empty .unlimited
    let bytes := Utf8.encode "é: test\n"
    world.Writes twoListings (Command.listing dir []) bytes ∧
      world.Writes twoListings (Command.listing dir ["--lib"]) bytes ∧
      (∃ output answer,
        ((capture (Command.listing dir [])).carryOut twoListings world).result = .ok output ∧
        ((capture (Command.listing dir ["--lib"])).carryOut twoListings world).result =
          .ok answer ∧
        output.output = answer.output ∧ output.output = "é: test\n" ∧ output.exitCode = 0) ∧
      ∃ names, ((discover dir []).carryOut twoListings world).result = .ok (.listed names) ∧
        ((discover dir ["--lib"]).carryOut twoListings world).result = .ok (.listed ["é"]) ∧
        names = ["é"] := by
  intro dir world bytes
  obtain ⟨hone, htwo, hlists, hends⟩ := captures_read_bytes_in_order
  have hwrites : world.Writes twoListings (Command.listing dir []) bytes :=
    ⟨[], by cbv, by cbv⟩
  have hwrites' : world.Writes twoListings (Command.listing dir ["--lib"]) bytes :=
    ⟨[], by cbv, by cbv⟩
  obtain ⟨output, hresult⟩ := hends twoListings world (Command.listing dir [])
    ⟨⟨[], by cbv⟩, by decide, by decide⟩ (by decide)
  obtain ⟨answer, hanswer⟩ := hends twoListings world (Command.listing dir ["--lib"])
    ⟨⟨[], by cbv⟩, by decide, by decide⟩ (by decide)
  have hnames : ((discover dir []).carryOut twoListings world).result = .ok (.listed ["é"]) := by
    cbv
  have hothers : ((discover dir ["--lib"]).carryOut twoListings world).result =
      .ok (.listed ["é"]) := by cbv
  obtain ⟨⟨others, hothers', hreading⟩, hzero, -⟩ := hone _ _ _ _ hresult
  refine ⟨hwrites, hwrites', ⟨output, answer, hresult, hanswer,
    htwo _ _ _ _ _ _ _ _ _ hresult hanswer hwrites hwrites', ?_, ?_⟩, ["é"], hnames, hothers,
    hlists _ _ _ _ _ _ _ _ _ _ _ hnames hothers hwrites hwrites'⟩
  · exact hreading.whole _ (hothers'.unique hwrites)
  · exact (hzero (by decide)).mpr ⟨0, by cbv, rfl⟩

end Run
end SoloRun

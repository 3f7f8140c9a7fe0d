import DialF.Lib.Substring
import DialF.Share.DeviceList
import Mathlib.Data.Bool.AllAny

/-!
# The argv of a service unit

`service.rs` writes a unit for launchd, a property list with the argv as strings of an array, or for
systemd, with the argv on the `ExecStart=` line, and reads the argv back from the text of a unit. A
path is written as it is. `roundTrips_iff` says which paths are read back as they were: in a
property list those without the four tags that are looked for, on a command line those that are one
word and do not make the text look like a property list.
-/

set_option autoImplicit false

namespace DialF.Service

open DialF.Lib DialF.Share

/-- Which privilege/lifecycle scope to install under. -/
inductive Scope where
  | system
  | user
  deriving DecidableEq

/-- Who runs the service. -/
inductive Manager where
  | launchd
  | systemd
  deriving DecidableEq

/-! ## Writing -/

/-- Lines, each with its line feed. -/
def unlines (ls : List Str) : Str := ls.flatMap (· ++ ['\n'])

/-- A line of an array, with a string. -/
def stringLine (e : Str) : Str := "    <string>".toList ++ e ++ "</string>\n".toList

/-- Subcommand first, then its flags. -/
def launchdArgs (exe : Str) (config : Option Str) (scope : Scope) : Str :=
  stringLine exe ++ stringLine "daemon".toList ++
    (match config with
      | some c => stringLine "--config".toList ++ stringLine c
      | none => []) ++
    (if scope = .system then stringLine "--system".toList else [])

/-- The property list down to the key of the array. -/
def plistHead : Str :=
  unlines ["<?xml version=\"1.0\" encoding=\"UTF-8\"?>".toList,
    ("<!DOCTYPE plist PUBLIC \"-//Apple//DTD PLIST 1.0//EN\" ".toList ++
      "\"http://www.apple.com/DTDs/PropertyList-1.0.dtd\">".toList),
    "<plist version=\"1.0\">".toList, "<dict>".toList, "  <key>Label</key>".toList,
    "  <string>build.agora.dialfd</string>".toList] ++ "  ".toList

/-- What stands behind the array. -/
def plistTail (err : Str) : Str :=
  unlines ["".toList, "  <key>RunAtLoad</key>".toList, "  <true/>".toList,
    "  <key>KeepAlive</key>".toList, "  <true/>".toList, "  <key>StandardErrorPath</key>".toList,
    "  <string>".toList ++ err ++ "</string>".toList, "  <key>EnvironmentVariables</key>".toList,
    "  <dict>".toList, "    <key>PATH</key>".toList,
    "    <string>/opt/homebrew/bin:/usr/local/bin:/usr/bin:/bin:/usr/sbin:/sbin</string>".toList,
    "  </dict>".toList, "</dict>".toList, "</plist>".toList]

/-- The key whose array is the argv. -/
def argsKey : Str := "<key>ProgramArguments</key>".toList

/-- The tag that closes the arguments. -/
def arrayEnd : Str := "</array>".toList

/-- The tag before a text. -/
def stringTag : Str := "<string>".toList

/-- The tag after a text. -/
def stringEnd : Str := "</string>".toList

/-- Where a panic is written; `userLog` is the path of the log in the home directory. -/
def errLog (userLog : Str) : Scope → Str
  | .system => "/var/log/dialfd.err.log".toList
  | .user => userLog

/-- `launchd_plist`. -/
def launchdPlist (userLog exe : Str) (config : Option Str) (scope : Scope) : Str :=
  plistHead ++ (argsKey ++ ("\n  <array>\n".toList ++ launchdArgs exe config scope ++ "  ".toList ++
    (arrayEnd ++ plistTail (errLog userLog scope))))

/-- PATH for the service, which does not inherit the user's. -/
def servicePath (scope : Scope) : Str :=
  List.intercalate [':'] (["/run/current-system/sw/bin".toList] ++
    (if scope = .user then ["%h/.nix-profile/bin".toList] else []) ++
    ["/usr/local/bin".toList, "/usr/bin".toList, "/bin".toList, "/usr/sbin".toList,
      "/sbin".toList])

/-- The command of `ExecStart`. -/
def execLine (exe : Str) (config : Option Str) (scope : Scope) : Str :=
  exe ++ " daemon".toList ++
    (match config with
      | some c => " --config ".toList ++ c
      | none => []) ++
    (if scope = .system then " --system".toList else [])

/-- The target that wants the unit. -/
def installTarget : Scope → Str
  | .system => "multi-user.target".toList
  | .user => "default.target".toList

/-- The lines of a unit in front of its command line. -/
def unitHead : List Str :=
  ["[Unit]".toList, "Description=DialF daemon (dialfd)".toList,
    "After=network-online.target".toList, "Wants=network-online.target".toList, "".toList,
    "[Service]".toList]

/-- Those behind it. -/
def unitTail (scope : Scope) : List Str :=
  ["Restart=always".toList, "RestartSec=2".toList, "Environment=PATH=".toList ++ servicePath scope,
    "".toList, "[Install]".toList, "WantedBy=".toList ++ installTarget scope]

/-- `systemd_unit`. -/
def systemdUnit (exe : Str) (config : Option Str) (scope : Scope) : Str :=
  unlines (unitHead ++ ("ExecStart=".toList ++ execLine exe config scope) :: unitTail scope)

/-- The text of the unit that is installed. -/
def unitText (userLog : Str) (manager : Manager) (exe : Str) (config : Option Str) (scope : Scope) :
    Str :=
  match manager with
  | .launchd => launchdPlist userLog exe config scope
  | .systemd => systemdUnit exe config scope

/-! ## Reading -/

/-- The text of the array under the key, empty where there is none. -/
def arrayOf (text : Str) : Str :=
  ((splitText argsKey text)[1]?.bind fun rest => (splitText arrayEnd rest).head?).getD []

/-- What stands in the string elements of an array. -/
def stringsOf (args : Str) : List Str :=
  (splitText stringTag args).tail.filterMap fun s => (splitText stringEnd s).head?

/-- The command line of a unit. -/
def execStart (text : Str) : Option Str :=
  (lines text).findSome? fun l =>
    stripPrefix "ExecStart=".toList (l.dropWhile isWhitespace)

/-- Extract the service argv from a unit file. -/
def unitArgv (text : Str) : List Str :=
  if hasText "<plist".toList text then stringsOf (arrayOf text)
  else ((execStart text).map words).getD []

/-- The binary path the installed unit runs. -/
def unitProgram (text : Str) : Option Str := (unitArgv text).head?

/-- The `--config <path>` baked into the installed unit. -/
def unitBakedConfig (text : Str) : Option Str :=
  ((unitArgv text).dropWhile (· != "--config".toList))[1]?

/-! ## What is to be read back -/

/-- `dialf daemon [--config <path>] [--system]`. -/
def argvOf (exe : Str) (config : Option Str) (scope : Scope) : List Str :=
  [exe, "daemon".toList] ++
    (match config with
      | some c => ["--config".toList, c]
      | none => []) ++
    (if scope = .system then ["--system".toList] else [])

/-- The argv is read back from the unit, and so are the two paths. -/
structure RoundTrips (text exe : Str) (config : Option Str) (scope : Scope) : Prop where
  argv : unitArgv text = argvOf exe config scope
  program : unitProgram text = some exe
  baked : unitBakedConfig text = config

/-- The path survives the unit. -/
def Carries (s : Str) : Manager → Prop
  | .launchd => ∀ tag ∈ [argsKey, arrayEnd, stringTag, stringEnd], ¬ tag <:+: s
  | .systemd => s ≠ [] ∧ (∀ c ∈ s, isWhitespace c = false) ∧ ¬ "<plist".toList <:+: s

/-- Both paths survive the unit, and the binary is not taken for the flag of the config. -/
structure Safe (manager : Manager) (exe : Str) (config : Option Str) : Prop where
  carries : ∀ s ∈ exe :: config.toList, Carries s manager
  flag : exe = "--config".toList → config = some "daemon".toList

/-! ## The array -/

section Launchd

variable {userLog exe : Str} {config : Option Str} {scope : Scope}

/-- What stands behind the string of a line. -/
def lineEnd : Str := stringEnd ++ ['\n']

theorem stringLine_eq (e : Str) :
    stringLine e = "    ".toList ++ (stringTag ++ (e ++ lineEnd)) := by
  have hopen : "    <string>".toList = "    ".toList ++ stringTag := rfl
  have hclose : "</string>\n".toList = lineEnd := rfl
  have hline : stringLine e = "    <string>".toList ++ e ++ "</string>\n".toList := rfl
  rw [hline, hopen, hclose, List.append_assoc, List.append_assoc]

/-- One line of the plist for each argument. -/
def stringLines (es : List Str) : Str := es.flatMap stringLine

theorem launchdArgs_eq : launchdArgs exe config scope = stringLines (argvOf exe config scope) := by
  cases config <;> cases scope <;> simp [launchdArgs, stringLines, argvOf]

/-- What a property list is written with: no tag that is looked for begins in an array, or ends
there. -/
theorem tags_apart :
    (∀ tag ∈ [argsKey, arrayEnd, stringTag],
      Apart tag "\n  <array>\n".toList ∧ Apart tag "    ".toList ∧ Apart tag "  ".toList ∧
        Apart tag lineEnd ∧ EndsApart tag lineEnd) ∧
      (∀ tag ∈ [argsKey, arrayEnd], Apart tag ("    ".toList ++ stringTag)) ∧
      (Apart argsKey arrayEnd ∧ Apart argsKey plistHead) ∧
      "<plist".toList <:+: plistHead ∧
      ∀ w ∈ ["daemon".toList, "--config".toList, "--system".toList],
        ∀ tag ∈ [argsKey, arrayEnd, stringTag, stringEnd], ¬ tag <:+: w := by
  -- with the texts as lists the kernel need not read them
  delta plistHead lineEnd argsKey arrayEnd stringTag stringEnd
  repeat rw [String.toList_ofList]
  decide +kernel

/-- A tag that does not begin in the tags of a line begins in no line without it. -/
theorem clear_stringLines {tag : Str} {es : List Str} (hes : ∀ e ∈ es, ¬ tag <:+: e)
    (hopen : Clear tag ("    ".toList ++ stringTag)) (hclose : Clear tag lineEnd)
    (hends : EndsApart tag lineEnd) :
    Clear tag (stringLines es) := by
  induction es with
  | nil => exact clear_nil tag
  | cons e es ih =>
      have hrest : Clear tag (e ++ lineEnd) := clear_append (hes e (by simp)) hends hclose
      have hline : Clear tag (stringLine e) := by
        rw [stringLine_eq, ← List.append_assoc]
        exact hopen.append hrest
      exact hline.append (ih fun e he => hes e (by simp [he]))

/-- The strings of the lines, whatever stands in front of them. -/
theorem splitText_stringLines {es : List Str}
    (hes : ∀ e ∈ es, ¬ stringTag <:+: e ∧ ¬ stringEnd <:+: e) {x : Str} (hx : Clear stringTag x) :
    ∃ w rest, splitText stringTag (x ++ (stringLines es ++ "  ".toList)) = (x ++ w) :: rest ∧
      rest.filterMap (fun s => (splitText stringEnd s).head?) = es := by
  obtain ⟨-, hindent, hlast, hline, hends⟩ := tags_apart.1 stringTag (by simp)
  induction es generalizing x with
  | nil =>
      refine ⟨"  ".toList, [], ?_, rfl⟩
      apply splitText_eq_singleton (by decide)
      exact (hx.append hlast.clear).not_isInfix (by decide)
  | cons e es ih =>
      obtain ⟨htag, hend⟩ := hes e (by simp)
      have hspaces : Clear stringTag (x ++ "    ".toList) := hx.append hindent.clear
      have helement : Clear stringTag (e ++ lineEnd) := clear_append htag hends hline.clear
      obtain ⟨w, rest, hsplit, hrest⟩ := ih (fun e he => hes e (by simp [he])) helement
      refine ⟨"    ".toList, (e ++ lineEnd ++ w) :: rest, ?_, ?_⟩
      · rw [← hsplit, ← splitText_of_clear (by decide) hspaces]
        simp only [stringLines, List.flatMap_cons, stringLine_eq, List.append_assoc]
      · have hcut : splitOnce stringEnd (e ++ stringEnd ++ (['\n'] ++ w)) =
            some (e, ['\n'] ++ w) :=
          splitOnce_append (not_infix_append_dropLast (by decide) hend) _
        have hfirst : (splitText stringEnd (e ++ lineEnd ++ w)).head? = some e := by
          rw [head?_splitText (by decide), lineEnd, List.append_assoc, List.append_assoc,
            ← List.append_assoc e, hcut]
          rfl
        rw [List.filterMap_cons, hfirst, hrest]

/-- What stands in the array. -/
theorem arrayOf_launchdPlist (hes : ∀ e ∈ argvOf exe config scope,
    ¬ argsKey <:+: e ∧ ¬ arrayEnd <:+: e) :
    arrayOf (launchdPlist userLog exe config scope) =
      "\n  <array>\n".toList ++ (stringLines (argvOf exe config scope) ++ "  ".toList) := by
  obtain ⟨-, -, ⟨hkeyApart, hhead⟩, -⟩ := tags_apart
  have harray : ∀ tag ∈ [argsKey, arrayEnd], (∀ e ∈ argvOf exe config scope, ¬ tag <:+: e) →
      Clear tag ("\n  <array>\n".toList ++
        (stringLines (argvOf exe config scope) ++ "  ".toList)) := by
    intro tag htag hnot
    have hopen := tags_apart.2.1 tag htag
    obtain ⟨hfirst, -, hlast, hline, hends⟩ :=
      tags_apart.1 tag (List.mem_append_left [stringTag] htag)
    have hlines := clear_stringLines hnot hopen.clear hline.clear hends
    exact hfirst.clear.append (hlines.append hlast.clear)
  have hkey := harray argsKey (by simp) fun e he => (hes e he).1
  have hend := harray arrayEnd (by simp) fun e he => (hes e he).2
  have hrest : ∀ rest, ∃ rest', (splitText argsKey ("\n  <array>\n".toList ++
      (stringLines (argvOf exe config scope) ++ "  ".toList) ++ (arrayEnd ++ rest))).head? =
      some ("\n  <array>\n".toList ++ (stringLines (argvOf exe config scope) ++ "  ".toList) ++
        (arrayEnd ++ rest')) := by
    intro rest
    rw [head?_splitText (by decide), hkey, hkeyApart.clear]
    cases splitOnce argsKey rest with
    | none => exact ⟨rest, rfl⟩
    | some cut => exact ⟨cut.1, by simp⟩
  have htext : ∃ rest, launchdPlist userLog exe config scope = plistHead ++ (argsKey ++
      ("\n  <array>\n".toList ++ (stringLines (argvOf exe config scope) ++ "  ".toList) ++
        (arrayEnd ++ rest))) := by
    refine ⟨plistTail (errLog userLog scope), ?_⟩
    rw [launchdPlist, launchdArgs_eq]
    simp only [List.append_assoc]
  obtain ⟨rest, htext⟩ := htext
  obtain ⟨rest', hrest⟩ := hrest rest
  rw [arrayOf, htext, splitText_of_clear (by decide) hhead.clear, List.getElem?_cons_succ,
    ← List.head?_eq_getElem?, hrest, Option.bind_some, head?_splitText (by decide),
    hend.splitOnce_append (by decide)]
  rfl

theorem hasText_launchdPlist :
    hasText "<plist".toList (launchdPlist userLog exe config scope) = true := by
  rw [hasText_iff]
  have hhead : "<plist".toList <:+: plistHead := tags_apart.2.2.2.1
  exact hhead.trans (List.prefix_append _ _).isInfix

/-- What is read back from a property list, where no argument has one of the tags. -/
theorem unitArgv_launchdPlist (hes : ∀ e ∈ argvOf exe config scope,
    ∀ tag ∈ [argsKey, arrayEnd, stringTag, stringEnd], ¬ tag <:+: e) :
    unitArgv (launchdPlist userLog exe config scope) = argvOf exe config scope := by
  have harray : arrayOf (launchdPlist userLog exe config scope) =
      "\n  <array>\n".toList ++ (stringLines (argvOf exe config scope) ++ "  ".toList) := by
    apply arrayOf_launchdPlist
    intro e he
    exact ⟨hes e he _ (by simp), hes e he _ (by simp)⟩
  have hstrings : ∀ e ∈ argvOf exe config scope, ¬ stringTag <:+: e ∧ ¬ stringEnd <:+: e := by
    intro e he
    exact ⟨hes e he _ (by simp), hes e he _ (by simp)⟩
  have hapart : Apart stringTag "\n  <array>\n".toList :=
    (tags_apart.1 stringTag (by simp)).1
  obtain ⟨w, rest, hsplit, hrest⟩ := splitText_stringLines hstrings hapart.clear
  rw [unitArgv, if_pos hasText_launchdPlist, harray, stringsOf, hsplit]
  exact hrest

/-- No argument that is read from a property list has one of the tags. -/
theorem not_infix_of_mem_stringsOf {text e : Str} (he : e ∈ stringsOf (arrayOf text)) :
    ∀ tag ∈ [argsKey, arrayEnd, stringTag, stringEnd], ¬ tag <:+: e := by
  rw [stringsOf, List.mem_filterMap] at he
  obtain ⟨piece, hpiece, he⟩ := he
  obtain ⟨hpiece, htag⟩ := mem_splitText (by decide) (List.mem_of_mem_tail hpiece)
  obtain ⟨he, hend⟩ := mem_splitText (by decide) (List.mem_of_mem_head? he)
  have harray : ¬ argsKey <:+: arrayOf text ∧ ¬ arrayEnd <:+: arrayOf text := by
    rw [arrayOf]
    cases hkey : (splitText argsKey text)[1]? with
    | none => exact ⟨by decide, by decide⟩
    | some rest =>
        obtain ⟨-, hkey⟩ := mem_splitText (by decide) (List.mem_of_getElem? hkey)
        obtain ⟨array, harray⟩ : ∃ array, (splitText arrayEnd rest).head? = some array :=
          ⟨_, head?_splitText (by decide)⟩
        obtain ⟨hin, hend⟩ := mem_splitText (by decide) (List.mem_of_mem_head? harray)
        rw [Option.bind_some, harray, Option.getD_some]
        exact ⟨fun h => hkey (h.trans hin), hend⟩
  simp only [List.forall_mem_cons, List.not_mem_nil, false_implies, implies_true, and_true]
  have harrayOf := he.trans hpiece
  exact ⟨fun h => harray.1 (h.trans harrayOf), fun h => harray.2 (h.trans harrayOf),
    fun h => htag (h.trans he), hend⟩

end Launchd

/-! ## The command line -/

section Systemd

variable {exe w word s : Str} {config : Option Str} {scope : Scope} {ws : List Str}

theorem wordsGo_append (hw : ∀ c ∈ w, isWhitespace c = false) (s : Str) :
    wordsGo word (w ++ s) = wordsGo (word ++ w) s := by
  induction w generalizing word with
  | nil => simp
  | cons c w ih =>
      have hc : ¬ isWhitespace c = true := by simp [hw c (by simp)]
      rw [List.cons_append, wordsGo, if_neg hc, ih fun c hc => hw c (by simp [hc])]
      simp

theorem words_append_blank (hw : IsWord w) (s : Str) : words (w ++ ' ' :: s) = w :: words s := by
  have hblank : isWhitespace ' ' = true := by decide
  rw [words, wordsGo_append hw.2, List.nil_append, wordsGo, if_pos hblank, if_neg]
  · rfl
  · simpa using hw.1

theorem words_of_isWord (hw : IsWord w) : words w = [w] := by
  rw [words, ← List.append_nil w, wordsGo_append hw.2, List.nil_append, List.append_nil, wordsGo,
    if_neg]
  simpa using hw.1

theorem words_intercalate (hws : ∀ w ∈ ws, IsWord w) (hne : ws ≠ []) :
    words (List.intercalate [' '] ws) = ws := by
  induction ws with
  | nil => exact absurd rfl hne
  | cons w ws ih =>
      cases ws with
      | nil => simpa [List.intercalate] using words_of_isWord (hws w (by simp))
      | cons w' ws =>
          have hcons : List.intercalate [' '] (w :: w' :: ws) =
              w ++ ' ' :: List.intercalate [' '] (w' :: ws) := by
            simp [List.intercalate]
          rw [hcons, words_append_blank (hws w (by simp)), ih (fun w hw => hws w (by simp [hw]))
            (by simp)]

/-- What the words of a line are. -/
theorem isWord_of_mem_wordsGo (hword : ∀ c ∈ word, isWhitespace c = false)
    (hw : w ∈ wordsGo word s) : IsWord w := by
  induction s generalizing word with
  | nil =>
      rw [wordsGo] at hw
      split at hw
      · simp at hw
      · rename_i hne
        obtain rfl := List.mem_singleton.1 hw
        exact ⟨by simpa using hne, hword⟩
  | cons c s ih =>
      rw [wordsGo] at hw
      split at hw
      · split at hw
        · exact ih (by simp) hw
        · rename_i hne
          rcases List.mem_cons.1 hw with rfl | hw
          · exact ⟨by simpa using hne, hword⟩
          · exact ih (by simp) hw
      · rename_i hc
        refine ih ?_ hw
        intro d hd
        rcases List.mem_append.1 hd with hd | hd
        · exact hword d hd
        · obtain rfl := List.mem_singleton.1 hd
          simpa using hc

theorem execLine_eq :
    execLine exe config scope = List.intercalate [' '] (argvOf exe config scope) := by
  have hdaemon : " daemon".toList = ' ' :: "daemon".toList := rfl
  have hconfig : " --config ".toList = ' ' :: "--config".toList ++ [' '] := rfl
  have hsystem : " --system".toList = ' ' :: "--system".toList := rfl
  rw [execLine.eq_def, argvOf.eq_def, hdaemon, hconfig, hsystem]
  cases config <;> cases scope <;> simp [List.intercalate]

theorem forall_mem_argvOf {P : Str → Prop} (hdaemon : P "daemon".toList)
    (hconfig : P "--config".toList) (hsystem : P "--system".toList)
    (hpaths : ∀ s ∈ exe :: config.toList, P s) : ∀ e ∈ argvOf exe config scope, P e := by
  rw [List.forall_mem_cons] at hpaths
  obtain ⟨hexe, hpaths⟩ := hpaths
  rw [argvOf.eq_def]
  cases config with
  | none => cases scope <;> simp_all
  | some c => cases scope <;> simp_all

theorem mem_argvOf (hs : s ∈ exe :: config.toList) : s ∈ argvOf exe config scope := by
  rw [argvOf.eq_def]
  rcases List.mem_cons.1 hs with rfl | hs
  · exact List.mem_append_left _ (List.mem_append_left _ List.mem_cons_self)
  · obtain rfl := Option.mem_toList.1 hs
    exact List.mem_append_left _ (List.mem_append_right _
      (List.mem_cons_of_mem _ (List.mem_singleton_self s)))

theorem argvOf_ne_nil : argvOf exe config scope ≠ [] :=
  List.ne_nil_of_mem (mem_argvOf List.mem_cons_self)

/-- A command line ends with its line feed; a tag that has no blank in it begins in no word without
it. -/
theorem clear_intercalate {tag : Str} (hblank : ' ' ∉ tag) (hfeed : '\n' ∉ tag)
    (hspace : Clear tag [' ']) (hline : Clear tag ['\n']) (hws : ∀ w ∈ ws, ¬ tag <:+: w)
    (hne : ws ≠ []) : Clear tag (List.intercalate [' '] ws ++ ['\n']) := by
  induction ws with
  | nil => exact absurd rfl hne
  | cons w ws ih =>
      have hw := hws w (by simp)
      cases ws with
      | nil => simpa [List.intercalate] using clear_append_cons hfeed hw hline
      | cons w' ws =>
          have hcons : List.intercalate [' '] (w :: w' :: ws) ++ ['\n'] =
              w ++ ' ' :: (List.intercalate [' '] (w' :: ws) ++ ['\n']) := by
            simp [List.intercalate]
          rw [hcons]
          apply clear_append_cons hblank hw
          exact hspace.append (ih (fun w hw => hws w (by simp [hw])) (by simp))

theorem systemdUnit_eq : systemdUnit exe config scope =
    unlines unitHead ++ "ExecStart=".toList ++
      (List.intercalate [' '] (argvOf exe config scope) ++ ['\n']) ++ unlines (unitTail scope) := by
  rw [systemdUnit, execLine_eq, unlines, unlines, unlines, List.flatMap_append, List.flatMap_cons]
  simp only [List.append_assoc]

theorem infix_intercalate (hw : w ∈ ws) : w <:+: List.intercalate [' '] ws := by
  induction ws with
  | nil => simp at hw
  | cons v ws ih =>
      cases ws with
      | nil =>
          obtain rfl := List.mem_singleton.1 hw
          exact ⟨[], [], by simp [List.intercalate]⟩
      | cons v' ws =>
          have hcons : List.intercalate [' '] (v :: v' :: ws) =
              v ++ ' ' :: List.intercalate [' '] (v' :: ws) := by
            simp [List.intercalate]
          rw [hcons]
          rcases List.mem_cons.1 hw with rfl | hw
          · exact (List.prefix_append _ _).isInfix
          · exact (ih hw).trans ⟨v ++ [' '], [], by simp⟩

/-- The lines around the command line have no tag and no line feed in them, and are no command line
themselves. -/
theorem unit_lines (scope : Scope) :
    (∀ line ∈ unitHead ++ unitTail scope, '<' ∉ line ∧ '\n' ∉ line) ∧
      (unitHead.map stripCr).findSome? (fun l =>
        stripPrefix "ExecStart=".toList (l.dropWhile isWhitespace)) = none := by
  cases scope with
  | system =>
      delta unitHead unitTail servicePath installTarget
      repeat rw [String.toList_ofList]
      decide +kernel
  | user =>
      delta unitHead unitTail servicePath installTarget
      repeat rw [String.toList_ofList]
      decide +kernel

theorem not_mem_unlines {c : Char} (hc : c ≠ '\n') {ls : List Str} (h : ∀ line ∈ ls, c ∉ line) :
    c ∉ unlines ls := by
  rw [unlines, List.mem_flatMap]
  rintro ⟨line, hline, hmem⟩
  rcases List.mem_append.1 hmem with hmem | hmem
  · exact h line hline hmem
  · exact hc (List.mem_singleton.1 hmem)

/-- A tag that no argument has is not in the unit. -/
theorem not_infix_systemdUnit {p : Str} (hblank : ' ' ∉ '<' :: p) (hfeed : '\n' ∉ '<' :: p)
    (hes : ∀ e ∈ argvOf exe config scope, ¬ '<' :: p <:+: e) :
    ¬ '<' :: p <:+: systemdUnit exe config scope := by
  obtain ⟨hlines, -⟩ := unit_lines scope
  have hhead : '<' ∉ unlines unitHead ++ "ExecStart=".toList := by
    rw [List.mem_append, not_or]
    exact ⟨not_mem_unlines (by decide) fun line h => (hlines line (List.mem_append_left _ h)).1,
      by decide⟩
  have htail : '<' ∉ unlines (unitTail scope) :=
    not_mem_unlines (by decide) fun line h => (hlines line (List.mem_append_right _ h)).1
  have hspace : Clear ('<' :: p) [' '] := clear_of_not_mem (by decide)
  have hline : Clear ('<' :: p) ['\n'] := clear_of_not_mem (by decide)
  have hexec := clear_intercalate hblank hfeed hspace hline hes argvOf_ne_nil
  rw [systemdUnit_eq]
  have hclear := ((clear_of_not_mem hhead).append hexec).append (clear_of_not_mem htail)
  exact hclear.not_isInfix (by simp)

theorem eq_blank_or_of_mem_intercalate {c : Char} (hc : c ∈ List.intercalate [' '] ws) :
    c = ' ' ∨ ∃ w ∈ ws, c ∈ w := by
  induction ws with
  | nil => simp [List.intercalate] at hc
  | cons w ws ih =>
      cases ws with
      | nil => exact Or.inr ⟨w, by simp, by simpa [List.intercalate] using hc⟩
      | cons w' ws =>
          have hcons : List.intercalate [' '] (w :: w' :: ws) =
              w ++ ' ' :: List.intercalate [' '] (w' :: ws) := by
            simp [List.intercalate]
          rw [hcons, List.mem_append, List.mem_cons] at hc
          rcases hc with hc | hc | hc
          · exact Or.inr ⟨w, by simp, hc⟩
          · exact Or.inl hc
          · rcases ih hc with heq | ⟨v, hv, hc⟩
            · exact Or.inl heq
            · exact Or.inr ⟨v, by simp [hv], hc⟩

/-- The command line is found. -/
theorem execStart_systemdUnit (hes : ∀ e ∈ argvOf exe config scope, IsWord e) :
    execStart (systemdUnit exe config scope) =
      some (List.intercalate [' '] (argvOf exe config scope)) := by
  obtain ⟨haround, hhead⟩ := unit_lines scope
  have hchar : ∀ c, isWhitespace c = true → c ≠ ' ' →
      c ∉ "ExecStart=".toList ++ List.intercalate [' '] (argvOf exe config scope) := by
    intro c hc hne hmem
    have hname : ∀ c ∈ "ExecStart=".toList, isWhitespace c = false :=
      List.all_iff_forall_prop.1 (by decide)
    rcases List.mem_append.1 hmem with hmem | hmem
    · simp [hname c hmem] at hc
    · rcases eq_blank_or_of_mem_intercalate hmem with heq | ⟨e, he, hmem⟩
      · exact hne heq
      · simp [(hes e he).2 c hmem] at hc
  have hlines : lines (systemdUnit exe config scope) =
      (unitHead ++ ("ExecStart=".toList ++ execLine exe config scope) :: unitTail scope).map
        stripCr := by
    apply lines_flatMap_newline
    intro line hline
    rcases List.mem_append.1 hline with hline | hline
    · exact (haround line (List.mem_append_left _ hline)).2
    · rcases List.mem_cons.1 hline with rfl | hline
      · rw [execLine_eq]
        exact hchar '\n' (by decide) (by decide)
      · exact (haround line (List.mem_append_right _ hline)).2
  have hcr : stripCr ("ExecStart=".toList ++ execLine exe config scope) =
      "ExecStart=".toList ++ execLine exe config scope := by
    apply stripCr_of_not_mem
    rw [execLine_eq]
    exact hchar '\r' (by decide) (by decide)
  have hstart : ("ExecStart=".toList ++ execLine exe config scope).dropWhile isWhitespace =
      "ExecStart=".toList ++ execLine exe config scope := rfl
  rw [execStart, hlines, List.map_append, List.findSome?_append, hhead, List.map_cons, hcr,
    List.findSome?_cons, hstart, stripPrefix_append, execLine_eq]
  rfl

/-- What is read back from the unit of systemd, exactly where every argument is one word and none
makes the text look like a property list. -/
theorem unitArgv_systemdUnit (hes : ∀ e ∈ argvOf exe config scope, IsWord e)
    (hplist : ∀ e ∈ argvOf exe config scope, ¬ "<plist".toList <:+: e) :
    unitArgv (systemdUnit exe config scope) = argvOf exe config scope := by
  have hnot : ¬ hasText "<plist".toList (systemdUnit exe config scope) = true := by
    rw [hasText_iff]
    exact not_infix_systemdUnit (by decide) (by decide) hplist
  rw [unitArgv, if_neg hnot, execStart_systemdUnit hes, Option.map_some, Option.getD_some]
  exact words_intercalate hes argvOf_ne_nil

/-- What has been read back has no blank in it, and did not look like a property list. -/
theorem facts_of_unitArgv (h : unitArgv (systemdUnit exe config scope) = argvOf exe config scope) :
    ∀ e ∈ argvOf exe config scope, IsWord e ∧ ¬ "<plist".toList <:+: e := by
  by_cases hplist : hasText "<plist".toList (systemdUnit exe config scope) = true
  · -- the key of an array would be in one of the arguments, and that one is not read back
    exfalso
    rw [unitArgv, if_pos hplist] at h
    have hkey : ¬ argsKey <:+: systemdUnit exe config scope := by
      apply not_infix_systemdUnit (by decide) (by decide)
      intro e he
      rw [← h] at he
      exact not_infix_of_mem_stringsOf he argsKey (by simp)
    have hnone : stringsOf (arrayOf (systemdUnit exe config scope)) = [] := by
      rw [arrayOf, splitText_eq_singleton (by decide) hkey]
      rfl
    exact argvOf_ne_nil (h.symm.trans hnone)
  · rw [unitArgv, if_neg hplist] at h
    intro e he
    refine ⟨?_, ?_⟩
    · rw [← h] at he
      cases hexec : execStart (systemdUnit exe config scope) with
      | none => simp [hexec] at he
      | some line =>
          rw [hexec] at he
          exact isWord_of_mem_wordsGo (by simp) he
    · intro hin
      apply hplist
      rw [hasText_iff, systemdUnit_eq]
      have hline : e <:+: List.intercalate [' '] (argvOf exe config scope) := infix_intercalate he
      exact (hin.trans hline).trans ⟨unlines unitHead ++ "ExecStart=".toList,
        '\n' :: unlines (unitTail scope), by simp only [List.append_assoc]; rfl⟩

end Systemd

/-! ## Both -/

section Both

variable {userLog exe : Str} {manager : Manager} {config : Option Str} {scope : Scope}

/-- The config is read back from the argv. -/
theorem baked_argvOf :
    ((argvOf exe config scope).dropWhile (· != "--config".toList))[1]? = config ↔
      (exe = "--config".toList → config = some "daemon".toList) := by
  have hdaemon : ("daemon".toList != "--config".toList) = true := by decide
  have hsystem : ("--system".toList != "--config".toList) = true := by decide
  rw [argvOf.eq_def]
  generalize "daemon".toList = daemon at hdaemon ⊢
  generalize "--system".toList = system at hsystem ⊢
  generalize "--config".toList = flag at hdaemon hsystem ⊢
  by_cases hexe : exe = flag
  · subst hexe
    simp [eq_comm]
  · have hexe' : (exe != flag) = true := by simpa using hexe
    cases config with
    | none => cases scope <;> simp [hexe, hexe', hdaemon, hsystem]
    | some c => cases scope <;> simp [hexe, hexe', hdaemon]

theorem unitArgv_iff (userLog : Str) (manager : Manager) (scope : Scope) :
    unitArgv (unitText userLog manager exe config scope) = argvOf exe config scope ↔
      ∀ s ∈ exe :: config.toList, Carries s manager := by
  cases manager with
  | launchd =>
      constructor
      · intro h s hs
        have hmem : s ∈ unitArgv (launchdPlist userLog exe config scope) := by
          rw [show unitArgv (launchdPlist userLog exe config scope) = _ from h]
          exact mem_argvOf hs
        rw [unitArgv, if_pos hasText_launchdPlist] at hmem
        exact not_infix_of_mem_stringsOf hmem
      · intro h
        apply unitArgv_launchdPlist
        have hwords := tags_apart.2.2.2.2
        exact forall_mem_argvOf (hwords _ List.mem_cons_self)
          (hwords _ (List.mem_cons_of_mem _ List.mem_cons_self))
          (hwords _ (List.mem_cons_of_mem _ (List.mem_cons_of_mem _ List.mem_cons_self))) h
  | systemd =>
      constructor
      · intro h s hs
        obtain ⟨⟨hne, hword⟩, hplist⟩ := facts_of_unitArgv h s (mem_argvOf hs)
        exact ⟨hne, hword, hplist⟩
      · intro h
        apply unitArgv_systemdUnit
        · refine forall_mem_argvOf ?_ ?_ ?_ fun s hs => ⟨(h s hs).1, (h s hs).2.1⟩
          · exact ⟨by decide, List.all_iff_forall_prop.1 (by decide)⟩
          · exact ⟨by decide, List.all_iff_forall_prop.1 (by decide)⟩
          · exact ⟨by decide, List.all_iff_forall_prop.1 (by decide)⟩
        · refine forall_mem_argvOf ?_ ?_ ?_ fun s hs => (h s hs).2.2
          · decide
          · decide
          · decide

/-- **What is read back from a unit**: the argv and the two paths, exactly where the paths survive
the unit and the binary is not taken for the flag of the config. -/
theorem roundTrips_iff (userLog : Str) (manager : Manager) (exe : Str) (config : Option Str)
    (scope : Scope) :
    RoundTrips (unitText userLog manager exe config scope) exe config scope ↔
      Safe manager exe config := by
  have hprogram : (argvOf exe config scope).head? = some exe := rfl
  constructor
  · rintro ⟨hargv, -, hbaked⟩
    refine ⟨(unitArgv_iff userLog manager scope).1 hargv, ?_⟩
    rw [unitBakedConfig, hargv] at hbaked
    exact baked_argvOf.1 hbaked
  · rintro ⟨hcarries, hflag⟩
    have hargv := (unitArgv_iff userLog manager scope).2 hcarries
    refine ⟨hargv, ?_, ?_⟩
    · rw [unitProgram, hargv, hprogram]
    · rw [unitBakedConfig, hargv]
      exact baked_argvOf.2 hflag

/-- A binary in a directory with a blank in its name. -/
def blankExe : Str := "/opt/my apps/dialf".toList

/-- The unit of systemd runs something else, and that is what is read back. -/
theorem not_roundTrips_blank :
    '\n' ∉ blankExe ∧
      ¬ RoundTrips (unitText [] .systemd blankExe none .user) blankExe none .user := by
  refine ⟨by decide +kernel, ?_⟩
  rintro ⟨hargv, -, -⟩
  obtain ⟨⟨-, hword⟩, -⟩ := facts_of_unitArgv hargv blankExe (mem_argvOf List.mem_cons_self)
  exact absurd (hword ' ' (by decide +kernel)) (by decide)

end Both

end DialF.Service

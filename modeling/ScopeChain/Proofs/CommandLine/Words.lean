import ScopeChain.CommandLine.Request

/-! # Options spelt out in words

An option can be given in one word together with its value, whatever this is (`CommandLine.readWords_word`), and a
unit can be asked for after a word that ends all options. So every question for a unit is asked by some command line
(`CommandLine.Request.ofWords?_words`); the options that come with it are any but an empty path of a configuration.
-/

namespace ScopeChain.CommandLine

namespace OptionKey

def name : OptionKey → String
  | .config => "config"
  | .archives => "archives"
  | .parentFirst => "parent-first"
  | .log => "log"

/-- The word that gives an option its value. -/
def word (key : OptionKey) (value : String) : String := "--" ++ key.name ++ "=" ++ value

private theorem ofName?_name (key : OptionKey) : ofName? key.name = some key := by
  cases key <;> decide

theorem toList_word (key : OptionKey) (value : String) :
    (key.word value).toList = '-' :: '-' :: (key.name.toList ++ '=' :: value.toList) := by
  simp [word, String.toList_append]

private theorem name_clean (key : OptionKey) : '=' ∉ key.name.toList := by
  cases key <;> decide

/-- The word is a long option with the value attached to it. -/
private theorem ofString_word (key : OptionKey) (value : String) :
    Word.ofString (key.word value) = .long key.name (some value) := by
  have filled : key.name.toList ++ '=' :: value.toList ≠ [] := by simp
  have clean : ∀ c ∈ key.name.toList, decide (c ≠ '=') = true := by
    rintro c inside
    exact decide_eq_true fun mark => key.name_clean (mark ▸ inside)
  rw [Word.ofString, toList_word]
  split
  · rename_i whole
    exact absurd (List.cons.inj (List.cons.inj whole).2).2 filled
  · rename_i rest _ whole
    obtain rfl : key.name.toList ++ '=' :: value.toList = rest := (List.cons.inj (List.cons.inj whole).2).2
    simp only [List.takeWhile_append_of_pos clean, List.dropWhile_append_of_pos clean]
    simp
  · rename_i notLong whole
    exact (notLong (List.cons.inj (List.cons.inj whole).2).1.symm).elim
  · rename_i notLong _
    exact (notLong _ rfl).elim

/-- No topic has a name that begins with a dash. -/
private theorem topic_word (key : OptionKey) (value : String) : Topic.ofName? (key.word value) = none := by
  have dash (topic : String) (plain : topic.toList.head? ≠ some '-') : key.word value ≠ topic := by
    rintro rfl
    rw [toList_word] at plain
    exact plain rfl
  simp only [Topic.ofName?, if_neg (dash "load" (by decide)), if_neg (dash "resource" (by decide)),
    if_neg (dash "resources" (by decide)), if_neg (dash "sources" (by decide)), if_neg (dash "help" (by decide))]

end OptionKey

/-- Such a word is read as the option that it gives. -/
theorem readWords_word (options : Options) (key : OptionKey) (value : String) (rest : List String) :
    readWords { options } (key.word value :: rest) =
      (options.take key value).bind fun options => readWords { options } rest := by
  have valued (asked : String) : ¬ (key.name = asked ∧ some value = none) := by simp
  rw [readWords, key.topic_word]
  simp only [key.ofString_word, if_neg (valued "help"), if_neg (valued "version"), key.ofName?_name,
    Option.bind_some, Reading.settled?]
  cases options.take key value <;> rfl

namespace Options

/-- The options with the value that is given to an option. -/
def set? (options : Options) (setting : OptionKey × String) : Option Options := options.take setting.1 setting.2

/-- What options give, key by key. -/
def settings (options : Options) : List (OptionKey × String) :=
  options.config.toList.map (.config, ·) ++ options.archives.toList.map (.archives, ·) ++
    options.parentFirst.map (.parentFirst, ·) ++ options.log.toList.map (.log, ·)

def words (options : Options) : List String := options.settings.map fun setting => setting.1.word setting.2

private theorem foldlM_parentFirst (options : Options) (beginnings : List String) :
    (beginnings.map (OptionKey.parentFirst, ·)).foldlM set? options =
      some { options with parentFirst := options.parentFirst ++ beginnings } := by
  induction beginnings generalizing options with
  | nil => simp
  | cons beginning rest ih =>
    rw [List.map_cons, List.foldlM_cons, set?, take]
    exact (ih _).trans (by simp)

/-- Options are taken over setting by setting. -/
private theorem foldlM_settings (options : Options) (named : options.config ≠ some "") :
    options.settings.foldlM set? {} = some options := by
  obtain ⟨config, archives, parentFirst, log⟩ := options
  simp only [settings, List.foldlM_append, foldlM_parentFirst]
  cases config <;> cases archives <;> cases log <;> simp_all [set?, take, setOnce]

end Options

private theorem readWords_settings (settings : List (OptionKey × String)) (options : Options) (rest : List String) :
    readWords { options } (settings.map (fun setting => setting.1.word setting.2) ++ rest) =
      (settings.foldlM Options.set? options).bind
        fun options => readWords { options } rest := by
  induction settings generalizing options with
  | nil => rfl
  | cons setting settings ih =>
    rw [List.map_cons, List.cons_append, readWords_word, List.foldlM_cons]
    show (options.set? setting).bind _ = ((options.set? setting).bind _).bind _
    cases options.set? setting with
    | none => rfl
    | some next => exact ih next

/-- Whatever options a question for a unit comes with and whatever text the unit is named by, some words ask it. -/
theorem Request.ofWords?_words (options : Options) (unit : String) (named : options.config ≠ some "") :
    ofWords? (options.words ++ ["load", "--", unit]) = some (.ask options (.load unit)) := by
  rw [ofWords?, Options.words, readWords_settings, options.foldlM_settings named]
  rfl

end ScopeChain.CommandLine

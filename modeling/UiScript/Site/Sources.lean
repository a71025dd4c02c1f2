import UiScript.Files.Listing
import UiScript.Path
import UiScript.Settings.Basic

/-!
# The sources of a site

A site is a folder of source files. Each source has a page in the output folder, at the place that
the source has below the site.
-/

namespace UiScript.Site

def sourceEnding : String := ".lum"

def pageEnding : String := ".html"

/-- A file by its path below a folder, which is a list of parts. -/
abbrev Below := List String

/-- The path below the folder. -/
def Below.relative (parts : Below) : String := String.intercalate "/" parts

/-- The path that leads through the folder. -/
def Below.path (parts : Below) (folder : String) : String := parts.foldl Path.join folder

def filesEndingIn (ending : String) (listing : Listing) : List Below :=
  listing.paths.filter fun parts => (parts.getLastD "").endsWith ending

def sources (settings : Settings) (listing : Listing) : List Below :=
  (filesEndingIn sourceEnding listing).filter fun parts => settings.accepts parts.relative

def pagePath (outputDir : String) (source : Below) : String :=
  Path.join outputDir ((Path.splitExtension source.relative).1 ++ pageEnding)

end UiScript.Site

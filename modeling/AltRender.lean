import AltRender.Cache.Basic
import AltRender.Cache.Change
import AltRender.Cache.Name
import AltRender.Cache.Staging
import AltRender.Cache.Tally
import AltRender.Cache.Traffic
import AltRender.Chain
import AltRender.Colour
import AltRender.Colour.Bytes
import AltRender.Command.Help
import AltRender.Command.Line
import AltRender.Command.Reach
import AltRender.Command.Rule
import AltRender.Command.Run
import AltRender.Decimal.Binary
import AltRender.Decimal.Layout
import AltRender.Decimal.Reading
import AltRender.Decimal.Shortest
import AltRender.Digest
import AltRender.Directive.Annotation
import AltRender.Directive.Argument
import AltRender.Directive.Bytes
import AltRender.Directive.Problem
import AltRender.Directive.Quoting
import AltRender.Disk.Basic
import AltRender.Disk.Change
import AltRender.Disk.Difference
import AltRender.Disk.Fault
import AltRender.Disk.Instant
import AltRender.Disk.Listing
import AltRender.Disk.Path
import AltRender.Disk.Region
import AltRender.Filter.Basic
import AltRender.Filter.Builtin
import AltRender.Filter.Cutout
import AltRender.Filter.Lightness
import AltRender.Filter.Sharpening
import AltRender.Filter.Tone
import AltRender.Glob.Pattern
import AltRender.Glob.Search
import AltRender.Json.Basic
import AltRender.Json.Numeral
import AltRender.Json.Reader
import AltRender.Json.Record
import AltRender.Json.Token
import AltRender.Keyed
import AltRender.Main
import AltRender.Picture.Basic
import AltRender.Picture.Checksum
import AltRender.Picture.Codec
import AltRender.Picture.Container
import AltRender.Picture.Raster
import AltRender.Proofs.Cache.Alone
import AltRender.Proofs.Cache.Change
import AltRender.Proofs.Cache.Clearing
import AltRender.Proofs.Cache.Confined
import AltRender.Proofs.Cache.Delivered
import AltRender.Proofs.Cache.EntryName
import AltRender.Proofs.Cache.EntryPath
import AltRender.Proofs.Cache.Eviction
import AltRender.Proofs.Cache.Freshness
import AltRender.Proofs.Cache.Staging
import AltRender.Proofs.Cache.Stock
import AltRender.Proofs.Cache.Traffic
import AltRender.Proofs.Cache.Untorn
import AltRender.Proofs.Colour
import AltRender.Proofs.Command.Clearing
import AltRender.Proofs.Command.Root
import AltRender.Proofs.Command.Saving
import AltRender.Proofs.Command.Sources
import AltRender.Proofs.Decimal.Bits
import AltRender.Proofs.Decimal.Nearness
import AltRender.Proofs.Decimal.Numeral
import AltRender.Proofs.Decimal.ReadBack
import AltRender.Proofs.Decimal.Rounding
import AltRender.Proofs.Directive.Agreement
import AltRender.Proofs.Directive.Blanked
import AltRender.Proofs.Directive.ByteReader
import AltRender.Proofs.Directive.Bytes
import AltRender.Proofs.Directive.Closing
import AltRender.Proofs.Directive.Compose
import AltRender.Proofs.Directive.Grammar
import AltRender.Proofs.Directive.Malformed
import AltRender.Proofs.Directive.Place
import AltRender.Proofs.Directive.Sealed
import AltRender.Proofs.Directive.Sites
import AltRender.Proofs.Directive.Value
import AltRender.Proofs.Directive.Written
import AltRender.Proofs.Disk.Asking
import AltRender.Proofs.Disk.Below
import AltRender.Proofs.Disk.Component
import AltRender.Proofs.Disk.Contents
import AltRender.Proofs.Disk.Joining
import AltRender.Proofs.Disk.Lost
import AltRender.Proofs.Disk.Making
import AltRender.Proofs.Disk.Parent
import AltRender.Proofs.Disk.Rewriting
import AltRender.Proofs.Disk.Route
import AltRender.Proofs.Disk.Tree
import AltRender.Proofs.Disk.Vacancy
import AltRender.Proofs.Disk.View
import AltRender.Proofs.Disk.Waypoint
import AltRender.Proofs.Filter.Cutout
import AltRender.Proofs.Filter.Darkmode
import AltRender.Proofs.Filter.Directive
import AltRender.Proofs.Filter.Inversion
import AltRender.Proofs.Filter.Locality
import AltRender.Proofs.Filter.Normalized
import AltRender.Proofs.Filter.Picture
import AltRender.Proofs.Filter.Pixels
import AltRender.Proofs.Filter.Shape
import AltRender.Proofs.Filter.Sharpening
import AltRender.Proofs.Filter.Signature
import AltRender.Proofs.Glob.Ahead
import AltRender.Proofs.Glob.Counting
import AltRender.Proofs.Glob.Following
import AltRender.Proofs.Glob.Literal
import AltRender.Proofs.Glob.Matching
import AltRender.Proofs.Glob.Spelling
import AltRender.Proofs.Glob.Trail
import AltRender.Proofs.Json.ReadBack
import AltRender.Proofs.Json.Requests
import AltRender.Proofs.Json.Token
import AltRender.Proofs.Keyed
import AltRender.Proofs.Picture.Encoding
import AltRender.Proofs.Registry.Edits
import AltRender.Proofs.Render.Account
import AltRender.Proofs.Render.Batch
import AltRender.Proofs.Render.Failed
import AltRender.Proofs.Render.Lasting
import AltRender.Proofs.Render.Reached
import AltRender.Proofs.Render.Request
import AltRender.Proofs.Render.Run
import AltRender.Proofs.Render.Sound
import AltRender.Proofs.Render.Steady
import AltRender.Proofs.Render.Tidy
import AltRender.Proofs.Render.Ways
import AltRender.Proofs.Settings
import AltRender.Proofs.Text.Bytes
import AltRender.Proofs.Toml.Lines
import AltRender.Proofs.Toml.Text
import AltRender.Proofs.Vault
import AltRender.Proofs.Workshop.Locks
import AltRender.Proofs.Workshop.Once
import AltRender.Proofs.Workshop.Overtaken
import AltRender.Proofs.Workshop.Scene
import AltRender.Proofs.Workshop.Serialized
import AltRender.Proofs.Workshop.Staying
import AltRender.Registry
import AltRender.Render
import AltRender.Render.Staging
import AltRender.Settings
import AltRender.Source
import AltRender.Text.Blank
import AltRender.Text.Bytes
import AltRender.Text.Cut
import AltRender.Text.Invisible
import AltRender.Text.Letters
import AltRender.Text.Occurrence
import AltRender.Text.Quoted
import AltRender.Theme
import AltRender.Toml.Basic
import AltRender.Toml.Reader
import AltRender.Toml.Scalar
import AltRender.Toml.Text
import AltRender.Value
import AltRender.Vault
import AltRender.Vault.Access
import AltRender.Workshop.Alone
import AltRender.Workshop.Basic

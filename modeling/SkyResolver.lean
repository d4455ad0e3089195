import SkyResolver.CommandLine.Arguments
import SkyResolver.Settings.Document
import SkyResolver.Settings.File
import SkyResolver.Settings.Flaw
import SkyResolver.Json.Writer
import SkyResolver.Main
import SkyResolver.Program
import SkyResolver.Query.Expansion
import SkyResolver.Service.Answer
import SkyResolver.Service.Call
import SkyResolver.Service.Decode
import SkyResolver.Service.Setup
import SkyResolver.Proofs.Query.Clauses
import SkyResolver.Proofs.Query.Completeness
import SkyResolver.Proofs.Query.Composition
import SkyResolver.Proofs.Query.Disjunction
import SkyResolver.Proofs.Query.NormalForm
import SkyResolver.Proofs.Query.Replacement
import SkyResolver.Proofs.Query.Validity
import SkyResolver.Proofs.Query.Agreement
import SkyResolver.Proofs.Query.WholeNames
import SkyResolver.Proofs.Cache.Expiry
import SkyResolver.Proofs.Http.Selection
import SkyResolver.Proofs.Service.Calls
import SkyResolver.Proofs.Service.ConeQuery
import SkyResolver.Proofs.Service.ConeSearch
import SkyResolver.Proofs.Service.Independence
import SkyResolver.Proofs.Service.KnownObjects
import SkyResolver.Proofs.Service.Publications
import SkyResolver.Proofs.Service.Provenance
import SkyResolver.Proofs.Service.NameCache
import SkyResolver.Proofs.Service.Recording
import SkyResolver.Proofs.Service.Refusals
import SkyResolver.Proofs.Service.Transparency
import SkyResolver.Proofs.Sky.RoundTrip
import SkyResolver.Proofs.Sky.Notation
import SkyResolver.Proofs.Sky.Radius
import SkyResolver.Proofs.Simbad.Aliases
import SkyResolver.Proofs.Simbad.LetterCase
import SkyResolver.Proofs.Simbad.Conditions
import SkyResolver.Proofs.Ned.Identifiers
import SkyResolver.Proofs.Query.Restriction
import SkyResolver.Proofs.Query.Exposed
import SkyResolver.Proofs.Query.ObjectFields
import SkyResolver.Proofs.Settings.Usability
import SkyResolver.Proofs.Settings.RoundTrip

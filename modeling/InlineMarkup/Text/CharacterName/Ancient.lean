/-!
Names of the characters of ancient scripts and of notations, with the codes from 10000 to 1D0FF.
-/
namespace InlineMarkup

def ancientNames : String :=
  "PpLcEN`MVbc/3;jiUTLwyov&.QpX:aikP[<JV?eyVeQ~wgz?|7TwzIR|j:X!m;;<xOlI'7,dt!.,wp)(z0^.?c+F!+8df1,6m]$r.TnbGm)yKUk]~Y.
1)E3]KpBlSm(fvqRhHG@DsOYqM5A?ySegeI[&IfJQc85|7J=`vk[hV+U+&J9:><)Hm]^fA;Il_<op'M:1L`u6abLTg(~g4.l95ore3(LvdWMh7o!a_BHp~
NRtaP*b]UZ>(z(8uc*'Eq5;'G+Eu%W?oHTOrb0|>><T9/,ZFyw.eBJk!UsK4o.Oma'HAh`5;E^rR;u:O!Pn/6P|Rc+*6vZ/A|=U8;AIy&sH*IPDV@@i,|N
um1ReB`fo>=%t;v1SvG9e4pbh+dQ<8et3N[a2^;uS3|tfd~Bm+`iB$srU_4q&5_~A~sq>=9K/Cw?&&EBzL33[|r]$~n7F(l~<h`:@uHWK0|1aPXwk[fDy,
n8kKvZ+,TN|tstrzIYDPuLWnp+e|O?7SVs<s]pXD=Rmf5!BqWp`fgy)b.z>SJFXzMun&&/|u'aB'PanE)o3R;/J0e10MXnO[yJAmzL2ld6^@X^%Y:jI;5I
6(<f+'2BG)54j*b;EtRdQUcwMNl%YR62_kF1UkPmm*dg65ei_(816?l@c%kT*XicCp]s9^Cno>eWtE[`[!4g@^=JmMuDTa9X(8W0tsP%`.Ra/~vjGNuYQ?
Vg0U1skhPT3P8Sq!@Q|0Y[GS`v,`@1^I.**mbe9f2:oSXPyd=?/rM^[RHrS`|K3l3fK;KVEJvxBLY/vPsS!|W(MmR$KrZFm0|@RPx.u1@%Tdi[M56s?>p3
x;]Zq4R6bzx[5[IoI,k+CR4W4r]=vP)Qz(qq,Us>cMWH|>S'$q<&!PE2Q8MXSW5D/75.kwwe^':,>5ZJdCV`bW3mLws9?I[7,4E5ocYu)>2wo^x;~0;$@)
KZp6V`h(UM]Gs$J]6.%PYV~OI)k2y:fDH(cB_B,l'm7(0vso>a+AE>3Im%?U?w~W6hKFT1Ij`~PO:Hcc!1BM!Kd~~q/K'~Af0V_|a$$uBX8qCl7irvb_Ql
H3N:nMrXB8|Q,5!E`2s?&ZS7Y8^LB[^O>1c/?<6Q!?h4PyEn&[:p88~b8OY8ZbynYof*XBF.|MC*$r%y@]<fq~uUvptx:L%K[T6q12MdIVha(vNp5;+PoZ
*|rs;33|p]?^ZCbx2Eb3@rqN^L7RH7xB@7alWAb]%<KHozbd05W[`RE/mgsA.;cpJ!fxf*S`_PHdiPZ^4!27jgdEk]w=i|rs=M0~ZHc.xJe%hhP5ceFrU1
&f[He.uily+?@u_,xS>7Wva<!lJ;v~d+dj=nn3)$0j4O]?(vHaii[9Q:n11o!HU@+%vX9)i~Vql)ITvU&DWSD~gF.U2Pc_P*FSu;[]R`cZcfBtO~Xcs@c~
0?Y7E^KptANkpPUACn@6FT2feXel!mmwv71E~IZ*13FN3oeQ,1KSkbG=Eyotj^8P~k3cWBrj;:!Q5+/[|82tzLD;rR2]OSSG1Js<pE:|g;CIbe6j~^~u_J
H<4Uu>Sv4.=tFez*+EBcnpXd3pip*+P'@MI$B(aJVju4MG$*sXBM0``gT,U=P4y,DdIN'IfEO?:WuZTg9EbyvrX];qn;[eS.)TdOOLxoa=>SAZA+qld62.
|<d.7BpN'l2(~,f$])4|,A`.vU'$~%gvxns65mrWN);I2W>my:[/[^!nUodw=LuJlL=W9I.i+hG=;O~c0+]K6tT)~/(e>qjs+==ck[Bx2FIednpRJMa,/,
BWs[)mq'^K1FtH^FmNOt_@Eo/$[f(UDMcgRxmlkoE<vOYL*|uH$YS+oM@O$)eR)LAagf|)m.SBUspa[d4R@vG,UF+]ch.NY5>W2%6,[''`5?J7rRwmmtp=
SEj1^3_QG+%b.)R'`Zt)Wyv~8a3QY[GyYl)OKEskpbYPqu$Pn2(|msD``,&tMx>&m&==@ptd!P'M);3xFz.j4(CfG`,0rmPv.zI+|19cL=LK4vwwbb)cAE
3)H).1H_s.O.y.Mm'bVGZsVeUEce>5[CS6Z$0s`z?,Ja?pHN=QO3yn=>NDXVJOyLl*`*w2<HD=E0]te]Rzba@d+@fMMjZ3.TT+!6s=T3J2:&U_5C*k4&Xe
+!DL*X$W*(5]GNBKf@3|N(ep[6F,Yyjo?rFBZH$nXf(',73f3QXL?K'punwaY09]$o8x+5S?:Q%>9)WiljIXD4wj$A<LojTCf6Ar;jvcdH5bDPi&fPL<4s
/@Lj&'z9G=7ielV1AtG<Apoe)LyM~.frrW^@`]OR2+R^<GOza~iU=<&^<P%+qspa?bdFzJ>9vIKn*l5qX[J517]z%(z*3e^CzP],9js6b[^ymY9I)WYC*c
q|OS%+(L]avjXbV+S6PA<8C+5ZT|?,pxSvnswx['AX'AE/QEk>P@Lp;ekq3uyQ0y~B$UQPOF~Z_I;8ErB_sq(ZL2a$Ds4!BN%^(acH?R`$kq^TT.y>0NIn
H(T)d)*r*.`oQN%$y~!;FA'?B>5IZTw~|V@fy&OOYo@Uhb6RJ*6UJDR](k`Gy1`5ul7Z0%8<2dH[yRZ921OCUSB.YC'B=$xBsa?;:v?u<!P7Ifq_<3b3Ha
qVhJw@AUHRqI,^7&NeM=CRobw0vmexpb3,bvZGuREjQ7d4c)4]+F.TS.R/X'=ub<cxoN>Q'e(E08E8sycn?(rvuiFd93e;nqTPE0hCP]Xqt8lFbBdH0h,9
wL_vP?`)!GJs`@lE!?%1K^N2C!7,/9FyURSqlz?3x+(b@(B=Ey3BDnJNzLvK[=l3w1gfWtB%QtzCEfhSqIipVRv.Wo:AI*D_|Kr5q&0XOrO&vZSs!5Fl[c
sQG9O%aMHzm[|)anh4QkLgObO!77Q>w7)9,SnLr)TNF&P1zT7H<G4V,('R8KjEO(w>NR+&jL]ha*^1>8OZt)G19XftzV[I4M/75x9r.zlvy2/2(u`5X44m
Clf&W&G1O&?|xpuJf'fQ)YJN_Q<G2=9_]S.V|I+EUw7CWMUiM`0UBT)f?:$wh]n|(V|)KAV4*wbg,:6FtA]'c~hoD.Rb$L%Jf+RkpY0~Y_?F?|gU1GPs]Z
=ZK1|w|'RxpODtB>zM;Q0!16I&f<SQ?9_EHbW(JxKqETyTAi|tO[G[?Ie+Lin>/8MdF>4HhIfi5BpQ54sw4t]Hg%FH&$le%c|(!$Li@Dtki4Whrly7@N8t
qYmS'gUi]S7(0>04JCrlwgd'TvFg_Qj+=YBy1vTLd..$b;g6pWH8'2kqj_HHC<%%ciM>dWAd^J|y0%x!*S]OMbOnX,,@|7qI?8AI!AOnFE1G]_T:dPvSnn
e,[e(3yPQthj<|w~!(_tigVLohXGCvHCG5vr3qJI_['+oP/`MR]rH@;r@v3sfLkV'Gmw$akiMTTer!8X2oN*non?,%rf~/%Pr;TQmhiu/Gqs.V5Jx_ut?=
O~%uF+4Y3D[Cj/8MYs4si)86f,N9Tsmd)WAY1=:F4MO^:[;+orgB*hWmVDMsOeZ=Jjs,$XRjjLdcp7QWO|,x9`YXw5P+y;l_w|HLJ$+E.ZQ]eW*:_jxp/n
!NudHzOS~Yn%(SVhwAkYI_K$u4`A[RZyCAB6a?~0ES5QSM.(a:mlfz*GF)4&oE!Rp,qmPm@<k8IOw03iU3)Uc%^hDcI;2;E_1gMI'Ohq2$8*C9^V+544=)
&N%?JuJvwb>c_V.[,1;76w*]3?fVNaxC4j2!XcuWd5zcL&MrLu!CzLyL%5vF[)?Y.>RxWA$zLsKcN4/B07vxQ4io<P^8oqf<`xhnOhME!YVGmC8Lr4&<AB
wTsI&O,16~O1GFXUv@D&`B![VyzjCvLq<A2'<z4&u1>Wt%O:C|R'Cink[z&[_3>N;cH_*;>>q!8__[`%Eh%g1OV%k~0%Xb^jhSkEvi:x'q<pxiYgeF<M^=
5;,E|Lbp1f$?@bhGOxRojjbJDsk8s]fsRt4`qT,'AGj^k7JEbtPuRq[/Qea_wSYG~1XX:mzM;wy5(@4~qQ(?uBLT)H]z!]eIrbQP6!XEp9?WcW`@'wHAVe
?o[iqVW&|QK>nH2eku8Jlb[vRQ%O!W~j?>YJmq(C`h8CSwZ:fNJu,j1wc*As+Wm!$/`P>,M:XU~hK0o=TK|.0x4S2KTw(AiM%pS=RMS?L%9@bT17FB;%='
*zn^?vnK60?us>lpr8`mYc2UEPtlemOO7pC$j83|5EFhQDRhv0Hx4umPe%m]%2k2tp;Xt&GUh+Bj)qZN?v/U40F5/Z^]E7o^O5/zF|2,1.D]Vm*I,s*|6m
Xe.)^.c43]/+L.f.N?t$3,PODr!`M05z:$V1v3Gd[&;BTF^/&CSL@lD57|wR1$m(NdskkB*P%=XBJx'T8+D4J>ggp6V3N4V=y_LkV*;jr)mb=tZ5hqG3k*
h!v:_f^)?%EUtyoqDBfXlLSb,dHEFxwAQ60g^$_Dh;F![Z+L1BeG&'0iA2R279_GRB3RhuS~bsY;%mqN)C73t7(_JhYT@DkvecmN%iu_7FQ&beXU&uX!e5
u]]i,_v|4w4Qr@!dS/cfpUgTklBS_MH7|QA+G88R8(BVn&G|&;_.KC@OVk.zg]5>)sI2]jG%st9L1Rw5/^S^4FI^$9uX6k6(1%l&`.y@0sK&kHtMx.Ty$O
V(5WLRxbY=eXQ^7[J/<|'dEQZZWLbX|P5H|]T+lik=|32z9N]E%;+@J3rai4+9t^NWXQDMbp9C1.!4iocIJnrP:F;9Th/xjP!yWHTpxk80MwxE.Z~C_(QX
F(^ps;enw,@F`h)'&q|pIB^863xgcs_g[XzAhKJJ,T+'hXx4O:Tr[X?SlNtF|?opgbFf14<^:hA`:hlSBy4Eey<R=)>Brc;V%*V5c@p9Y3']S)Vi[V|uaQ
`XiYrWcOEAGxMmMp<c>A@^sl*PF8jh:D`<s[omtDIH(W=cV$?:A'TF,bJF22GY'8N8ygw>09Re+JV^~K+K:Mdy83y9%L%9||g;yvsX=:*S8s@/v~_i1EM`
2I1sPP[,$HR18a&kQR6peWOIua')28Q>Tw5JI97E6ygag5/[N@R*NT:CA.k&2aJy%N>X6sKQ81__/b$1s(^PHQ73Y|70&;D/Ry'/HWTGPd_Mh`u61MS+wi
VR?gwWj%<Z*@:t7'5D=0'I.KW/Sg!=6.5!6JEu><RNA^BovtE[oGCa_MC40v2=?,86X4?=Gw8@ps[Sm3f=I9'dwS0,79oD5pXg3M7c|U$bi2L*uPH~L8>H
Yp;2c/C[J95(VTrGNSIvYX!h+AIjC=9gO1348Mjq/G>P=H3Oi'8zeX6w./Ce7;7V)*g@B>C@<u9G|RWL'k>zqn0).y)1)1eF2|NjIpzmjj_c46P<y1.cy=
(<W;f^bf[9Yf!?:Tnx(Y6ZbgY3KF<CW|L87Aa0gH^2VRO(HB'O=!k(+duWb%lpUx]<Wg)`@g8gotru=pz=jG_8uN(s,Mq*myxWA6UV'L.y+!>$K4O1Cg|:
:zR^_mY<GAS]3n;N6^2HJuYh;VcH?@<z:JRKd|>F]*)iG*IQ/':423KQ3`D~k?!TTX!esnK9FQA3gWELl2oH.[KCmS%ur'O`UP@vlIZgCE8(:m3F:[bOKz
;w1IJBam$.Ep25y9YVXEBd]?[6O?^Pvwd1XrZNnk*UK.t,//g</KV5)8wrwaqfr0kdrW.k`@5;Yo&H5O`qP2G]FyVK9y[dCoVGC1v;OOo`)/Z%A*CgOg?(
/]Mi`40I4o|;cQ|dU53qjKb:WeU2dn_rerX)m2YYr$L2E_Ps]ZQ3c5Wbto8hxo_;TV2FBPGNL/MH8kzsI/%H1u4B=+&>9>wQwcI*]<(,.pOhB=ex8=HKHO
ME5FtJcxx4E)8;>46]&,f!%c;oKclIQ`O>8G$fl=F&Ra~AcTv:o;Y~sHUa7,[4Ybo^z+~E6~qyhrZsn:pXSHt!0]>]kK&fJJ4xD;p(]e%:k8Ldh@6jk.ya
bok[.XMQiQ:;N~ps0*R|<)7EgY9'g*zT8;r<Nv,![SeBD<h:/c$Ls@5,3@Ku]Sr]jO$nWuw[_muDV*K3dcD$(H_=8Ezm^ztAvY8nJPS3T3~Y|ewO3e:Qgz
!&zDwGfzjIWp6i$jFodKsD.@sngbTo`mSG1947;,[0.NO+Db|DY<;GSw.]O6cLYgiA.^>!Jnf*DJwq7YW0/_SHWRrUKO;3qno(H3;ysE@:~sNGdrt7CD0^
3aw4T84IQGh:lhug@WPtxa&I,ZI/:0;Dk4hsqTkE,D32[Q8!P50jOiU0d`/Cb~*nd9=)^b31QWNozvg;uXD3:68,lBbq@r1%rSPzWU:lSZcc*2>@1^C2pG
*G5Qb=lKDA/8/9n]*P?uQ`k9[m@:N@8~,q^d|]76t^Y_@wh|Qgw~?5@~Vb@2_b$w>7`8lJPzI4'8q$._d/(:oLseqI=?)k;OS&/L+v/52*QEgVLaWrFy0a
8J@aCFpDlc0Q(,Ibgq3L/]E9d!0l,ur4lCBwUG!e.Kw$WlpiuKj)kG^B@Fy4hAPs%Vg4*$;|AutHp7H0h=!Ipjy3n*Jr|l]6B=s*9PV`Do=,V]/!]~j9,A
O.,jybMXp%Hv[2MLo6k$L=(dEoGlmQ*8K./6f+,Bzj%MzEuxT[KB6Zi6g_s_uFtDIyP80j@H%Xp=vX6ZD;AdP6e8|o;8D/vrl9t>P6(]CK=%X*dOpc.~>3
.>*a,(uUmo:wCK7d_idgz&~rRk=sFJ,p/G)XwE@Hn@GwCQ;,Z/M!yU'le'kP~Mv>2)@6HE_~=55^vqB;'8rC3qD!@lJ]^K^Pkr>T:cPD*'W:61,:bNSou.
|3t!xg(<^Chkq5.X:JqlQ+6ra^fBD:;.5zNBGm7];Vc65J^Bv9`&@)xp9%CeEI2JNm/Jg%x`A>Uk@lcl+4F~:b:1ItXBWQo:g+F0bR)4WX);/h1JG)*si/
fdsHTKpw/<;VcpMvTmP'`a@`&&*F'JkJc3P/0U|PYleRq/[MqJL@m>q^L%_<~E;!a/qTw+f.G=>WAeIOjaTx7yJBu$!j/BrjP_>V7^CGo;,v+|galI0;.*
d~'[;g43`K;a^FMI])ooz4jV,(+ppd,DyHDyYy[Tq0@>q5[*mqO*|Cc3.nMM>K;_MEM.>'j?k_p99Q5yF;:8Iaq&<:r)4VRI97k4AioUp6qmukvC4!O=YV
QhuQf'uutXwsn!xW&0&0S?,kk91[e(MJ.k.H7$XWP@<R89+d[K+L!qHt?a_5D/0EIm7Yb+s!nujCfD_5vd+[OFE/|Gc0q$WtpYo4Y%K)i9.I5V|LxD$^Re
r,p.Ics@GnNv):!G0mYg3I)&fw[zvXL8PWY=UIj<_Je'7jjD?r)Qj%y0WAM2+~D*LteTh1_%9.ngA|?wu`o6%,&<AhoZl|fez?eqH7_+Z?;3.J]Ej49kAA
AG+*I'6n0|fGtT%m98~Qp!pYq%^$v$gR$_YcUu9u(;%?ch*,c5$`(cWAoi*TSO,bqULYqZL(B](?7'UKL(MqH)%(G0R%HmVocxr3FJRY=^3CYLpIiRlH14
x|8Ac3[)NK'dlfdjJ?7Ce2?78(J*=7T[i^lt<d`qxSJI|:XmtP)@N$M8$.+*+yiGkv4`s1v5rNnHezs:ltLPX9d>RbrhXxjuqnkxU(w[U!E>p0+.q_S<mS
*J_Q,5SUCTieoVVnZ2cfB]LqYgFX+Gase>[%ek>u0wNNBTC]B:r7JuqYE5WLMpYL<5frjqi]_;nS2SC~U]9ZUoC!QlJnsw=`uU^9b!PK_k/ht0LuB*XN+8
(3:w8o8IbQXz|OyoZi?1)Y>.bDEv'4<<7r8F^q@B]Dvi(.A[IK5MUlW.L<sPD1@[yGMjMexD,;*in73mytfa^yeI'+Tsl4,rB+ZcVffS<9aM^2B`,0bzjj
6@H.!Cs_!14K~%Eb0%!2X!xqZ'og5=EgZc@]eQ>TH+zX?Vi1KANJDVAUJQh4Vp55g`WUbY5/mkp$1NBQ+b_EF;4lUWCj,Y&<2UtrIAEa@o+R11;*jh'KwG
Drs8$QJQ+Ox>@clsDG'XC@l;YITk[]nt'7ft|!s0bfoK_|TC[%(,dPKly@'^AICuI0hf<*?U4+DJWyELYoy1?+I3K*eDzee:7$y_4:lG:,Hwc~=SpN`+TW
`]]<BgtOA+mx|1(Q'g]qAQlA|MQUF=;s$KJ!hEABqd^lL81+,nfdQvETRHIxep08P~D!@^.hkN=_|,^]Dk]FMr`k<|8ezKiJH<l'nY;LzaC:JuuD;SGngG
Z4nC%;QQ[nE+|:NDY8B$KhUzIk?%|9P3Z^gy$ij8VTfZS6Ss4|LBBYvqGb8rwa0xXmZhNhS<KTT_dO0mQcm`P35faFP~0tXO.!1gTWbc4Fp5LHLQcdveA?
bnd>:`ohy3$Wq?8+$B:yft^%cm;a!|FHz,Dc18&gUS>@*&jOh+mX>T7S&d$/$pRkAef]YS'I+h=d>AS<my%ud41~NofR`vh0X*W:]LBSv&!fR=OXSZ+2vd
%BL|B9=ZHeAFKMc'yZE2FzS:D*8?ipLCM>UC5]MRUbe,.tqxO)R:E/r+|H[>27xd|h7J!L;C?(foztn*J4oOg[Eb&yb1iwQs)s46e;a*^V(?HTz5V*Ap%t
l&j.Ezngy6WVEI1b%;~Rd=FXFtiZ'MurFmUtuzhbKLo`sT72(iW0HKReuLgy7*0K01rL/^_Z/9E)AMI[]G?Sq:`J`NMcF6Iitv<H|SDy;Nxi&fHh<'KKPu
:7gL_Vu&yWENiLLhoe?NVJCuWEZX+W[Uh6QU]%Fsor+yQ0Qe&8iF)rD(KQ.=9<T+kgqhPnB!l()ex_<pkkvre0:$[NNH$^W/LL1kw,''AI+%r$;UShEvMc
i&k`T^|>8X=dCmWtHJ~V[KPyw=ch):Xqw@Na*TY:`cgQvW2q9B?^~$9%i,7<.7asy]7qlyKa_B&[u9<_@FO?6Yi6DKefL]H)t]8~1US*j[D'<t]N(U[D)<
$QhP<^H!y.FQp9H=`A@LJdnM72Jl`=KG7(cEpgF22f)hln0[mcVfOB*b>p4WulMbTK|rD^i7GI':FtOQ'_xO)2Ln.3:U0i_YWQtR[.$cHrriJ/6@TenHHl
%|%SV*&/DKK>X6Msk^zLJ>!oRWoDwYdT=Qa$vPe_MqdNcGVzsM]`.kS9'y&p3ooj?8IXb?FQI*`=&SjnZb`*gbl9',,h,_g7Z@R'(qhT:x1MC4!t8x4sNW
C*<PQoo]j^/nM<ZL`AD,6IUjIIPf;p9|@[VZD,Dvn+`/z`XK(jyZA,30,O]z:`+A9EY6'cXD$Q]RHrs0R(j4/asZ;,(:[IJL9B%R?xg$sS;xgLcN<|s^^t
X)bfT]Xdo'5IpU?k(sp&8`xu]l+|5)]V+B;y+:54GvCY=Ct0^*LKw:adO'f,]C+`q]I9L<:R>i%6Sm|$+%/~1uWm+mFRP>`%2dw1[<z|1g@I9g%'/W,.ty
lEhA;Q$=^P!Y@X)J7UJN>h>TD3zPb~P`2;p;.p^~[xswUEOj7D4@^LNRo@?]%4gA:Z[p6Hk5Y]RsE2Hfax`0k6ln>o|wnrH[LvD~ta+2L7e?I]Fw<u?;@$
[VBqL9Q3>IfPE@ljT9j4@<yj04!:p<rLHAyLA[1?xbc+m!I2q2<j[.W;A)^m2U5xAT8YrQ5JHts1n)&vE*w'0k9Jh4M=LQuAc]_aK^,RweFvTn$2!)|Ewy
=9),Yp&iJH24bYwr5Y)P!0Tl@%BBm@:^|/*.7[c>X4t|wF@c=Dzec5_0K*gVAx:^%n)Us8EBBc9+TwXpe17&EuwpgKEpk&JqnMFr=<1n`q5*OY)qe7jHvi
YKp_+B`r/92:P]`,):v`TI`*&'~abM3%N3TMq`5&Jw7()?)'cf.evP;3b;pRj,y/[Zm`3nyNQ`!82X4G*9VCk'KR)W]4!I|N*bxU9_]Z;QSH1iKQ*@N+_I
N*Kf^R~sCds$mipuA`oeVEAO2Qntqu]+!g*6i|tl^4*`j?0*SY^x$%4MP*%a&WJ8=/SviOzV<:yT4q&Gp[yi3,nUv]<8oC=qML:%(.Hdp.`:Jf^|3]?*tB
mikaR'XyS_%_WGhZM'YaGxNNzll0r^+_m(`OkYhzVU`jR!>$xpU=fh2:rT^T*FuH7GuFr^42Y]<=+%ooUxxA3~t[NRRM)Mm=_$kJpo_]`[Jnm]Cf)k)_/C
%=_/[f?M4m_qHlnCP9GVA*_'Hm8MD[40v5/:3fD4n2!cH5tv*8IyZKe17&1i?S6ma6r0wWE@Q.g.+]?[SYVu)^iM>Y]4[alBsSBsv*|V<i5fe&oIas2M=U
fa%kHL^%sI*pQi+O%ePfIH7kmJCpUM$nB9z~k>'/CUb^8oaY~,U<:+VvDuU:(3srAZc(`:HQd>/(giQ5%*iWR5'JK4^x,$V@vLjdrL5_SQZ+jVCf<>TvW%
9VC0$,?%('Hh*M'arGb>Ek2x[vSdg,uEb:rUMB>^Ip'UVs4dwb=$?>w?VIg|F2B7uI;5?FLyhgK>T4tZSPJZv0(Ws54Ek[@lL:/U$i@4L'$oU5F2ei7f@)
:W|k3*Vp[+?hM_T+@_N|QJ`07?.aBYH,R/%;SK5|oD39+QKW1BnWp/0YJhs~w+hs(rgd=fghd6Syy9!9H=~!&_y~O*]?Yf:3$+Q[nG54g1^JqTh=Bp$m0v
Z2|EC&XA5>;^(CPx6rWa&g^ltDv3J<,7FtX+@Dv'MeQ&p_<b`bh8[0+Mxa(XfN@:2k]9m~gHKB<.Q);$Y9R]p,S%TMMFT<Y3bo^2/YLf43vni'VDvl_r^c
M1^%*RSs,PB~8FrLYW5@az7E:l7CfH6w'lPq(0'$$@|K!Q)q,atCh.JbP~$Y4*PtV|VKlI%jXx/~'iv8r_^!_`1e)DJq5Fg)|z0sJo4~x6:+W(vDiV+c>^
!LmDL2|JkW$L9yt=W5bx@_KF3O|t+,jnRTz_rK5KnpBAY>+np.D]3x+UKq/@$%rCjV4:`Je<*t_3V@IaarhdEQz?Lluf>NW`+CRXcI*aHB[.V,ZxU$q(3Q
0i;Vm^o~ybk@qm'o.)RQ:n2ZXJ1Df2gnCDw:uM[5LL<;dWv:mol>*iIrf4?878Fv76nbPyzS&iniboPtrIPLczVL7T`@k;h9E4Kq>cRzqTIZMu5N7Lw8sR
Ey)eWx*NiIQn()|KwRSnn|SFL.4[qG[D2&~B3j8z<saM2&G=;x:6@jw|P~zyl^G'(Z81IB3DkT:cB)/Dm?(B[!LLn'xyP[anh;5U~v:A&pTsdnUO0ge2dV
/k(^,Ypf9O[Ssqwm[G%'U9=ffz1;7OqP;Bk6C6I47FQZc!=_Ud6RvAF9abM~qv4q6zCGoh(g37Hs%fe7z*pks||tjG>4*Sl@cG.:5nt7Qj6aS|)$XXu<tU
|rdZu$WC[)b;~n>0PvsLa5L.aHQpgY4IXE[ZEG=F@=?N<?UUkT1*9SG;=z;C3(M.b|Sa:XH@Eg)STwKR`e;ftMTVPel%;o|Ik[x2l9;R_K*Eic$!Vz:dV^
ff,<r@T8A[5(Z@lfJRrj8&|f95gld=F0QJkXfQQ5PMi&h5OSZ_ggHYrk~0Q]kn.QiT`_;K^5~[pF[KMDx]Fu&Y]=~%]&5Z.Q=@(B`wUZMczc7t8u6xH>_l
Qi(:du6qL3ThaL?8EGzF+O?h3:[/nRQ0t4E)z+oRIPJsl1B4qwcscr2,<BK<l$1|rV()Z*_AbK!6rq*z*'R%puASdeF|j=?41pjwX5M`w26M0Ay|0[_w_o
fSRgCcW?Zt)K2ao4Wuk'eM`($q3L'bh6$+gd.mtw!<mbI/gPn6Z~OA?cts<P!h;M66BaQ],ysU5t'@DLCMz=cS>UB9cq(ZT@BR;WAcB+jsmxat%%g.(EG@
8tUo`8XTbH9c(^9?>6%+rjj_mM5ZYYR_l@wV3c@n_9XJV9)mC9:/,K/'5;B.+IL@5:@.s_n.TV].|K_J/fNN@2taGL!uTy*Q:V>)d@l9vgmijI>4H7UvnA
gBPnpGf/q*>c.ftKIN/n0JCIg$R]mW)3~na]B)]+e?;EAl,2|!3!gnqq4mK._o!`<1sFjUGL>nOI,,9xsTLeNdVYPnPMB/KPUw1jY&J;~3G_C7h+/G,opt
.8CDWRx2qt=3g19j@S9Rqxt7=]o1$Z1tkGTF4L'^K&Kj[K!dW^Tdi.ioXU1Vc[wo2rWlzEmC/[!?[BpH9Woyv1NQpXRIQHbW'@+Z_+z>D+lFhHKL26ii*o
O&(~]'L3tysAW<[LlUH)h|zv;K!)jCEuZ|$JW8<',72_.S[5bem=/&iq..F|InalY1%$JRB1xfjOZ?z@1cN:DDOX8.i.Bj*IIp^elV/1w/x*SuI8$`ye07
e0So(i~(we~;;$?U9<&ZLNj)=8n56'QPot2hcvNgn%:T3w4V[wMwk[DozX82W|^ivmd:5W2.re]>0w0`;GpH]5yYB]pqMAF3^+3f>B23|L7>!t[ZUfmpLL
K*yComj9Al[ARtX$jU>hVDiOn)|R*^ceny'w/h/^|:kAQYy29iyoV30<ltf'6$<`10w$Y3B(5NMUB874lr<GrHVG(,u;/mAt)LT22,_xx:hZBe'U?':ZXM
'Q5ZQ!7hp;M`]LS2:e=TY7l[d8k%dfs^:+z2[JX)&xkdn+e*qR(bcd4>Yu%e.$d7vEDxiHiJJoB1>/~e~*!5`|W,3a1LavAA2C*[_B.j5G'Ce2(6Mijr4E
j>U)+(Kk@Uss~E|`G*e?a=wGztgZ]yikqZnSaczNYACJ$L8,.]+c6LYBQblL1M6.;mMt7K^^O$+>o`(ipO|~LCbKg@DnzBD0e59i12b!ez:dmaW]'z:uAK
R(Cdwrt.Mo_dZ$_|rPO.)k5Msr4I^_6mM'ts~P)CxnhI`$|j+sj!EFW6rtNnje0^Dd*xV~+YpGy'm~k|Mq?+TFUV?sxUd11<q,(*WxydWm:Xq6J:Gz82[l
Bwwfb*@nkDvv`1_SjPY@Segda0XQ>swiE^cx+Tad~Wb3%irc,q<xu[2.s43CK6T*~ws~T>!aO?f.2EEZ1OH`7NkIT*NMx.3Rg9S[_uV:L1QLN,1B(@y/Df
YI`^;iSwntzrBJM^|(80)yXw6,r=.AfmL;M7dH/='Urn/r=z]91H6:P6qD(@!s@2JfgCj5p8:CV1c=79fQw)e9k^A!Yf|VuA4GItXSevDy0plNY8@*w'+$
mF?(Q~x&^MtNYP%wMN:'lCihq$?,B;vStvM_JM'jFZSQxIB!@Jw._`'$8Q4Y=GPVYiwCmJo<M]Un8p>E+9K^Y,=q3Ogvv5.w?w7!B8T[1aELn[~KqFG^40
da4p~!/T0.@!V51m|[bQBZN,.x,KF;hT|2/coi|+t),Uc=y:1A%*ogoJtL(vy5+&!AXMdjvDbi>&?Xv2m3Fn8mwE@yUQC?GI2bcD_T*fEf1bu>00~gi)8|
lDZjM6X1OOd6sq$q$9?uw)OvB!K_L96eQ'j+4p5k0L<>B;2l/@El9nE238TJffv!@)!2bA<b:Y!W3jvdJDib^jQrv@NE3)$(jn0Q7QUKZ,ip/%^%%fZLT(
K:BKP^(ks0$8KYd7(kNQ[u@NLAyDW>5=C:Xr3CkT4[r+ZWrm!w_gUoviX,4Cbb[?A>4C4WKB=@C5Kn2mL/74fa$~LPcsO:DuYGp8dMGy,v%3K]t|MPj>K0
heJ]$ZrDJ[&WFe3.X&=oRhucXawFfc~MW/,oM,L3):YLb_hrs02C8/FB~TQ3aK9d~n(e@<z_plg^7]Yz7wx@D&+|k'UJ7;v+L@f0]RBsK5$[%>VT8f0GCu
0AO._BBaMSZKjnQTd_%Ft'5^d[Gu!3j^KSaQVqKM_I6x0$T<VPDNgT>wntsa_D<4h6|ohb&/UMQ(kJVtYR6z~rJlshf3tMmhYJFs14SeNEKs^]Dpw99tc/
(agsiB3uIG`imTt$9E9FhYe^Iaw>o'NIiml75Ojbe_n`mXA~6m8,<k14L'&sGlygQ+?u2g1o9b`vLD5.tP*4SEHQe2D:9[WduH[8vN?:W5W9Tp0c3[Pgce
'dAT@x=O$|1hjpL6?64]Cc!_*[SAD2@9GM+ar]`b(o'ac|Q%UIxt[$<SNhZDVLx'7Ys?S.Ae/Rqh2|&Nc2ns~*b/mM[&&+@2W:<&it]]]*|^n`0R.dx142
Yq.T8p2;l2Hh7a`.$]v[/$[J7!,?d70y=KcD!fqz>JS=')=EzAf0fR|?iXogl&Dbu=IGldfm'(|*p~4=oX;]pat:l~54HgUM9t7[v!xu8xbuHhz71!>qIi
EOhG^(VDF<P;bpdxisBd|16zvg8[K;C>U^60DZeRdzzwqV`9`$^~f[ztsG5(b`?5bGfc!Hk/|K1JNwt!Lh<_)q7]ZSrE8&2Za(OlKMehAT+_2]im=ESUaR
!qUWLg=YVHks>!AdIpEhM6H=E*6>xWl'2,!T[xL+;Ty>6/@6Y&xbf'94o>l/T)Y451QRBtUxd`.9aw%(`YSyoLOT;(GGQP+LQKQko^6,8;t*Itc:3(U%2b
*b.f:*Ahpou6W&_sPy5`/e)r+`yIo:I<TM`G],:5SWoIub$Tw2^1IAH349qkCv|?6,cS]ha7BWf*fkd)NU0,)brZHWcxvnA:K@68:4PwQ@5C;^9@/3@wx*
JG5kfPK~o9gA98oj7)k6S8d.N/%j1m;AMp,1`*`PBiD9T7=TH1YoN:hX]YdU9EnIb/,bUwR`IFzM~s]=5`@Im?40d|cNq+nyY^:+8qSCSvNWjooR!hKL/H
e.%UMAPy!0[a;W(kqevx(O4p!=VAd`T:DgLappsyrxZ@!~O`@.q@A8jJUmo8&N7,,bTN^K@q_E23fWGmuww:wWY/1yd=eIDEw=QFNKdt86:sF0a,e6C6W?
zjxx5J5q5[A>$4xs)_/i=wFqOrZd.s[t^+M0e<RYEcL)P_!1G@*]_]P:PXj9Vs;DS*)jr+A9vMJJW0J2jVs|TWcEXeU&ITc]g44[L>VrBK8vptjc|OL6>K
Fild~VVk4YsuDVdwoi5!Hq/y(;l(6Li[!oDF,]M|`h%XlIGY_.^I7ReiYZ_V;b)^EqY@t)I4v1:<l6a1g%(bZKDcxptg[Q!rc55_iD4^DuBr&M<^9a0Cpj
&$jZ5q>$)kuA@BV3<?FUY@Zoi2z~k_&0;C>!Ss3t@a/Gin'3V&@!HpW=oM`sK4M_9NdF+<p&^>J<V!2LJiSa8p~'/$5VM=8AKn>[([PrC~3>f8u+M4De+s
f$e|3.MlH9I!,rBEt]aHH^IGIpid[S<lYbBro<Fp`$ckm:T|$[t(D`9xr^w8S&jO$eV``[`p|fD~f+prCsYhH[i'Qk|Ke=V?f[H;01_A8XSVl?i]8;HCp!
~>x21TF@gVqZ6wAmGa1m1U9F5(CCp_v2KHl:%d)`llaQ5:h_F&3dW~.!O_]QVjU`wk`IiRGf6=dx%`<|`f&YVKSsKG3E!7|EVc5,;K7ykf~O[Zm~>F*YL|
9H`K6FZ4L~U'/xLQAx`FeugGw/!zoR.2aO0F(~As;at1H?a8'E2GLz9D^R%fN!CGh)|[Kf(t6cg*1k[&bw_h4Sq`b@a&Pz&<5|p+IX1^>*V[D+T~q/G)R+
gI_D?JSgp7yO^s&[L'Xrz!DsJfQA=Z9T@X4GGSoC@:Xa`[l;]sqe~b~&<T2:oxxZF;Z,J`rWfV'&uHaXg2s.gO8:>?hL0vX/Ommi(J8*ApfSe2nvEuL6M?
yc7_H>t[N1Di)Iwav0)fs$li!NVEE>tHb!o'yz8cz8>rQ6`gwhu:rs+q&?cF^C~yUl%~ykh;g~Utfl5CRQjv`.H1n/[M7wlCv:pqq>Y%ZeWgje(:fdFec^
x4Tt9ejq_n=s[5XTje.t8I_CuKm@`:QkFg+4OPKpHRp.Ud/Gd9T(GC']7IA67Y25w|X.L)@Dx4?`E<<E%'lXJwzSw,IICrVEvRp,3+b!^oAnq?0IGr$Yk@
@r'%CSnUM4z`^a,L&_+AZ&VsU[GFEI`N7:ZL=kz<nb5|rTV4AP<br27m!G78_z::/JXt0J]9qqOk$BV%T,;ds(!^[ekGXfly:D[l(st5Q_6JDO_sE6&hvE
/[tKGAU=xWVcw/=cWNCMNsa`OwI3?^Q7Zh^FGiuD~3E1Et2r*.8f[`%`.qyR8s<QV|3qK;Au7me9@owviH~,Hi*S>gY.[tw%>I.1hey[SEqfp2]qD>u>q`
|;8%Yt,/;RxbI6hNexr:AA^NgIo=$d?uy~uJu8QtC;sL_bDAdV@A7mnIoucjOpv@%~v>FR5YVc?wIKL`*^e<'6!n?uy;*3dG<dslb+>El`.rC!@?:VaENI
@'fiem*/KU'MT|rTgc!=d^v_Glk%|k+/k6_PPc:eLjHpblGq4!%YTo*_6ncNK%_h`^xriFOtbD!rQ|+KX=^pq[zrt|.1GJNIE2BTk53hP6U/k.o'bM;ji1
>(u')i7V`vVWy_/s%zCGS+M[|>rLT0_8ce$sRCG:E;,?@G%fWBy~]0Hs<%T?a*Qs$2U1D/W)CIRQ5|j0GYIKI.Q@S$;$msOF,?jicji:[+IDUAyMMsRhAO
v/^j0Fhb+qk=melU+~K[a3wA[ak~22XF;N<m`$*G/R;V(gY3dW4h+|2xyt82*aq1e,PJ)C!::1Gf1^3a/1@BtR?+bcv4*a6s9I4,+ZgFC7iu2lj@h9D[BF
g<1E%uktT^`>M1.Din&SEeo*<`WQJ&je4?,<QfK)MJX:`M57&96/xI>4^G;LvA/92m54I+OiZ4*QJ:x3gt~''U[5+WHFO^(r2'@tef%T`B*YJ;w(GL@)2'
:1jxwcn><^Bl>8X4F`S,ziEW=$$R5NChpTMa4:Vt^cwnE~avvdz4QQ_<L[9wzX?7_B7]2%_[%wFJ3L]jsc*aXz]h^DH+0BK49r?k9|RAm!Jf&FP6swS$cy
Xi.Kx)u2I~~v^],I(44fB0?^D~ms?GIHu[Hm5C:$5MJMm$<H5G%VHdPDD21<V!BAg3Q&d03sTiYaquw1'G<gSM3It%Jh9yBpwpeFtr5_'YETVyFL0Cj1gj
3rKw,u)'9$x8ParA<yz&A9!pkPYrTu.~pR[3`J[YI>_5/L73aztBa24Y&e'u@a&;<s?PpE^V&V'l[K0'H[cVHeGKD2fy+T`cq3qQ>E9Bmx+Dp+9L)[An3N
fY$n8Alw68+kjEkMv3O,5TNaGit)4k^N>LOWrfV@R?z1uX2Ofe[<AuCfnGcuS3lkXExm5[c.OHZLnajk2bTQIU6@A;.7_fDO&0I0b:8FVt5C7G's;k`n=N
[@(S[cXXAbWK%)NkhK|I);0Ip~m%T<$,37cm&59^Rmls^3Cl;FLHg8q?(R@@nUx;7QnsMway,:wQb`8YWI0G<ei=XgSv;fwWQ2]b*]2.8zRzNNvRwksm.2
NZ+0y+s&`D|g<~^!37q12d?@F;Q>Jl=e+%4o8vHW)14WlLJ!;yz=VnY5%=E*6Z_HMJIC79HFD?*J'z1a,Okr7~gfzUIB:TyHH>KE7UR_k?E:r`6P%^3ZO?
FZ>+XZ=S.1MMpIMf4Zaf16Sg1'@=/V~cE$Og4fmd~5,t1/hO3]>`Ouzk>(?!|>YrO:6Un(&i4dtKleHojO|N=Oi&`aKLGd2~4PlA%5e9pG|^Jc6f.lVIO<
zX@tCiBVy'5(03Q(i]'T=i37[/4[B5h1b!|$A!qM_WgqX=?;.11*ddiM;*yo'pZd>SA/Byz&]:@3:6GN8i~*Yunvi4ZfHvVV|Q/f`%t4A]QV8W7Q4/SgU~
P7[T&/R+7RCsX^:'n8;Bm^NfPbL)n8~<hEJil'CHq5|m=RlLPeh?3I<%nFEA!I;qC2R:)N7bY+@.)tWHTXr;Ypk1FNqekkU0j1XV|8+ZAN;:!ETX.1zm'(
,P`)WljL_./`>H(AlMVRH_Sfo%&cnW8(M!b3^vVzDy(W?0|AKb1<d|<I@*&FDtnD3B)8pQSa_]u>;JjfVG>74D`S<Z&[SdXqo,0([igCM4b`BX=u%qe2q3
6gGGL(s5W</`C,~uN:q|yp|fvV$|OXGn~B=w*B'j|G.ebkFtiIVnWw*7IS([[?<BJT*>l+8muU9<Jb4IC8(V@mbEe[!9jdrEti5HDFjH0^|$*+C)Sa>Py(
y6:)|>??'~I).f4e.*yq^x_Ve[c;j`yCxMihQ2uE_lMM:V](Y/j;6LO%6kYfAGs*rahlBHBZ4k7~y'H?vz6$,[fqD~q9(6hf0M4/2<7c*&,&PZB~&C[oKA
wz_GLf3M1daU~;`.?>Quldb[)jkIlKX7.BTNa'O)v4._i,K*S:omtq|TVWT+;k7[=V.2IQq4FZu?anL>3*5lFT2bd=58h(/rv@;0EK<.F)hU2jCBCS)jC_
zy]E;H0fgF[z^+,!FId;XyL6vC$&Q_mgP'@%6e'+X$Xtk,x!QlZ<AKF&ph%oMHN9x)d>p]kX[sdYr.h(BFB2(d:n+V_dZwo?D;Md`9,:p+3f5L'2&`AukL
~x]3]/q3De!cGFbzvJUB`>[e^?DuFA'9|wv]f1W6p'*2ruj&!v9^DLO8[oCojZt=|]RcE8%azjiu:&Z1y&g.tr[45MS~_vl!(Za5h=P&ArP9YFQ)7y%mhU
?T~>s0_2>LwZmNm[X.IA<%zj4ErU|Uu;gSTnHpDQqxn<n2;cwv=k054SFH%Hu=GH@'7KN_ak0Ex.]PpUf_|6NU!jDjv'FXL:k8!6nYEA~+?D`2a2%dq&:[
0D[0`eR54qFY(:0D~5o%ojB&VcBCMOtCP=`(jQETCbI5cd7&!win+:jSz2BguW$pHQ4CVgw+'10oUtwSa[fJpU_|EZHmW3Iza7'5A'Dw^&c@0b5~VN5fJ^
!YF72%Y*)Wcc&]0wTG4$z@AyXmO27;PpiYI56r@?fL.d!)?FG.L~k@[M:gV^0Sg%CIQj'_Mw47rvA(:J>K@DAert4D/[jgE2S|%?+C(|`$_'p>nX($),K$
(0';*@t^/r.yrGFza]w:(.A,_>CH'w=A<!]>V91DG34pV7a$D'*/$E0~=wDtZVvtWFhyJyx4c`J`FBR_EX>%AaD,|/jyRUlh:cB!4Q$4+O5^:OC[D]*oyl
H`X7y;]|.T+xAT%`KH+$!EDA9KcQ)o!GF(^AB,5RMCg6$EIRq6uH1=0Kd4D=*ZV:OLGWDxCw+F^gZK|=5$NSERJkBKmWvCx1xusfq5De[Izs9s~/=$+2On
0*S:i?'U7II)OE=UlTn1GV4PH>80Shpx]J<*k|D%Q/bVpX[Q@dst64Vk5U`;AM>A|cF=TYse2Kk(W`JMO@7g|GZ+c/<m?&80<PbSS)?,nD=;hLtq)~6jvE
>joOd$%U9BU*UM@Sfow11luykOA5qrsR(%kk!EwUZ&XHxT]YvZ5N;j5jpHI]F(MDvHwn+pTG@z.x%B`g^Gfsd!V7'xgU]a[(Y&70*%Y>Om>NLTs[!E!um<
oss702lHg>OH'cznBh,>w)zY@Lwq$B=f@SzU>=+M7FUr+3:u|'bzeXs=Vs?L6%%[@y2O=b&tv>18t;?omx0.<UM(a]t4~hiah,I0*B0K*TXXIh=L3==_2u
oasw2,[*./ZmS,JW9JlP3L9oYno`]Daxb4YuTB5p.Dt+;^A1?Z,bP~=7(*qI15ed5OrI(TrLqQW+!3y'Y)P(G~i`%neNX3+,cE:<TxQg?_isa~z.sStCnY
wrY'%mZ3u0x=&/Uu>s`,h+Ss6gSEs],c8T[6.j+f,YpkfhC[QhfirCaP/FH6YCeN^I!Ya)q&]h=)YXfeYzy(TZ<1wNU:f9Dv/PhH2jm.E]s>qtBC?`|s3^
/2Z]c1F81Hqk*AsH2MhxU0TF$2I65<;SCTGz'yJNstf:(6+<X6l^0%vHQc)BU+"

end InlineMarkup
